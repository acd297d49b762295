/-
  Folding leaves nothing to fold. What a character is replaced by is its own lower case: for the
  letters of ASCII this is plain, and beyond ASCII no lower case of one run of capitals lies among
  the capitals of another (`avoids_capitalRuns`). A folded text is in lower case, then
  (`isLower_fold`), and folding it again changes nothing (`fold_fold`).
-/
import Colourway.Proofs.Text.Spelling

namespace Colourway.Text

/-! ## Runs of capitals -/

/-- The code points of the lower cases of a run's first and last capital. -/
def CapitalRun.firstLower (run : CapitalRun) : ℕ := (run.first + run.shift).toNat

def CapitalRun.lastLower (run : CapitalRun) : ℕ := (run.last + run.shift).toNat

/-- The lower cases of the one run lie before or behind the capitals of the other, or each
between two of them. -/
def CapitalRun.avoids (run other : CapitalRun) : Bool :=
  Nat.blt run.lastLower other.first || Nat.blt other.last run.firstLower ||
    (Nat.beq other.step 2 && (Nat.beq run.step 2 || Nat.beq run.first run.last) &&
      Nat.beq ((run.firstLower + other.first) % 2) 1)

/-- The capital I with a dot above, as a run of its own. -/
def dottedRun : CapitalRun := ⟨0x130, 0x130, 1, 0⟩

theorem avoids_capitalRuns :
    (capitalRuns.all fun run => (dottedRun :: capitalRuns).all run.avoids) = true := by
  decide +kernel

theorem CapitalRun.StaysBeyond.not_has {run other : CapitalRun} {n : ℕ} (h : run.StaysBeyond)
    (havoids : run.avoids other = true) (hn : run.Has n) : ¬other.Has (n + run.shift).toNat := by
  obtain ⟨hfirst, hlast, hstep⟩ := hn
  obtain ⟨hlow, -⟩ := h
  unfold CapitalRun.avoids CapitalRun.firstLower CapitalRun.lastLower at havoids
  rw [Bool.or_eq_true, Bool.or_eq_true, Bool.and_eq_true, Bool.and_eq_true, Bool.or_eq_true,
    Nat.blt_eq, Nat.blt_eq, Nat.beq_eq, Nat.beq_eq, Nat.beq_eq, Nat.beq_eq] at havoids
  rintro ⟨hfirst', hlast', hstep'⟩
  rcases havoids with (hbefore | hbehind) | ⟨⟨htwo, hrun⟩, hodd⟩
  · omega
  · omega
  · rw [htwo] at hstep'
    rcases hrun with hrun | hrun
    · rw [hrun] at hstep
      omega
    · omega

theorem lowerInRuns?_eq_none {n : ℕ} {runs : List CapitalRun} (h : ∀ run ∈ runs, ¬run.Has n) :
    lowerInRuns? n runs = none := by
  induction runs with
  | nil => rfl
  | cons run runs ih =>
    have hrun : ¬(run.first ≤ n ∧ n ≤ run.last ∧ (n - run.first) % run.step = 0) :=
      h run List.mem_cons_self
    rw [lowerInRuns?, if_neg hrun, ih fun other hother => h other (List.mem_cons_of_mem run hother)]

/-! ## Characters -/

variable {c x : Char}

theorem lowerChar_of_beyond {n : ℕ} (hvalid : n.isValidChar) (hbeyond : 0x80 ≤ n)
    (h : ∀ run ∈ dottedRun :: capitalRuns, ¬run.Has n) :
    lowerChar (Char.ofNat n) = [Char.ofNat n] := by
  have hnat : (Char.ofNat n).toNat = n := by rw [Char.toNat_ofNat, if_pos hvalid]
  have hdotted : n ≠ 0x130 := by
    rintro rfl
    exact h dottedRun List.mem_cons_self ⟨le_rfl, le_rfl, rfl⟩
  unfold lowerChar
  rw [hnat, if_neg (not_lt.2 hbeyond), if_neg hdotted,
    lowerInRuns?_eq_none fun run hrun => h run (List.mem_cons_of_mem _ hrun)]

/-- What a character is replaced by is in lower case. -/
theorem isLower_lowerChar (c : Char) : IsLower (lowerChar c) := by
  intro x hx
  by_cases hkelvin : c = kelvinSign
  · have hk : lowerChar kelvinSign = ['k'] := by decide
    rw [hkelvin, hk, List.mem_singleton] at hx
    rw [hx]
    decide
  · have hself := hx
    unfold lowerChar at hx
    split_ifs at hx with hascii hdotted
    · rw [List.mem_singleton.1 hx, lowerChar_toLower, lowerChar_of_isAscii (decide_eq_true hascii)]
    · rcases List.mem_cons.1 hx with rfl | hx
      · decide
      · rw [List.mem_singleton.1 hx]
        decide
    · split at hx
      case h_1 n hn =>
        obtain ⟨run, hmem, hhas, rfl⟩ := exists_run_of_lowerInRuns? hn
        rw [List.mem_singleton.1 hx]
        rcases staysBeyond_capitalRuns run hmem with ⟨hfirst, hlast⟩ | hbeyond
        · -- the run of the Kelvin sign has no other capital
          have hnat : c.toNat = 0x212A := by
            obtain ⟨hle, hge, -⟩ := hhas
            omega
          exact absurd (by rw [kelvinSign, ← hnat, Char.ofNat_toNat]) hkelvin
        · have havoids := List.all_eq_true.1 (List.all_eq_true.1 avoids_capitalRuns run hmem)
          obtain ⟨hlow, hvalid⟩ := id hbeyond
          obtain ⟨hle, hge, -⟩ := id hhas
          exact lowerChar_of_beyond (by unfold Nat.isValidChar; omega) (by omega)
            fun other hother => hbeyond.not_has (havoids other hother) hhas
      case h_2 hnone =>
        rw [List.mem_singleton.1 hx, lowerChar, if_neg hascii, if_neg hdotted, hnone]

/-! ## Texts -/

theorem IsLower.append {s t : List Char} (hs : IsLower s) (ht : IsLower t) : IsLower (s ++ t) :=
  fun c hc => (List.mem_append.1 hc).elim (hs c) (ht c)

theorem isLower_foldAfter (before text : List Char) : IsLower (foldAfter before text) := by
  induction text generalizing before with
  | nil => exact nofun
  | cons c text ih =>
    by_cases hc : c = 'Σ'
    · have hsmall : lowerChar 'σ' = ['σ'] := by decide
      have hfinal : lowerChar 'ς' = ['ς'] := by decide
      rw [hc, foldAfter_sigma]
      refine List.forall_mem_cons.2 ⟨?_, ih _⟩
      split
      · exact hfinal
      · exact hsmall
    · rw [foldAfter_cons_of_ne hc]
      exact (isLower_lowerChar c).append (ih _)

/-- A folded text is in lower case. -/
theorem isLower_fold (name : String) : IsLower (fold name).toList := by
  rw [fold, String.toList_ofList]
  exact isLower_foldAfter [] name.toList

/-- Folding a text twice is folding it once. -/
theorem fold_fold (name : String) : fold (fold name) = fold name := (isLower_fold name).fold_eq

end Colourway.Text
