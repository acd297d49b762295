/-
  Spellings of a text. Putting the ASCII letters of a text in lower case changes nothing that is
  made of it without regard to case: its lower case, and what it folds to, for a capital and its
  small letter both count as letters to a sigma beside them. So two texts that are the same but for
  the case of ASCII letters have the same lower case and fold alike (`fold_congr`).

  Conversely a text that folds to an ASCII word is spelt in ASCII itself, unless it has a Kelvin
  sign, the one character beyond ASCII whose lower case is an ASCII letter. Comparing a text to an
  ASCII word letter by letter is therefore the same as folding it first, but for this sign
  (`sameIgnoringCase_fold_iff`).
-/
import Colourway.Proofs.Text.FinalSigma

namespace Colourway.Text

variable {c d : Char} {s t : List Char} {word name other : String}

/-! ## ASCII letters in lower case -/

theorem toLower_toLower (c : Char) : c.toLower.toLower = c.toLower := by
  rcases toLower_eq_or c with heq | ⟨hlow, -, hsmall⟩
  · exact congrArg Char.toLower heq
  · rcases toLower_eq_or c.toLower with htwice | ⟨-, hhigh, -⟩
    · exact htwice
    · omega

theorem lowerChar_toLower (c : Char) : lowerChar c.toLower = lowerChar c := by
  cases hc : isAscii c with
  | true =>
    have hlower : isAscii c.toLower = true := by rw [isAscii_toLower, hc]
    rw [lowerChar_of_isAscii hc, lowerChar_of_isAscii hlower, toLower_toLower]
  | false => rw [toLower_of_not_isAscii hc]

theorem utf8Size_toLower (c : Char) : c.toLower.utf8Size = c.utf8Size := by
  rcases toLower_eq_or c with heq | ⟨-, hhigh, hsmall⟩
  · rw [heq]
  · have hone : ∀ d : Char, d.toNat ≤ 127 → d.utf8Size = 1 := fun d hd =>
      Char.utf8Size_eq_one_iff.2 hd
    rw [hone c (by omega), hone c.toLower (by omega)]

theorem lower_map_toLower (text : List Char) : lower (text.map Char.toLower) = lower text := by
  rw [lower, lower, List.flatMap_map]
  exact List.flatMap_congr fun c _ => lowerChar_toLower c

theorem not_ignorable_letter :
    ∀ range ∈ caseIgnorableRanges,
      (range.2 < 0x41 ∨ 0x5A < range.1) ∧ (range.2 < 0x61 ∨ 0x7A < range.1) := by
  decide +kernel

theorem inRanges_caseIgnorable_toLower (c : Char) :
    inRanges caseIgnorableRanges c.toLower = inRanges caseIgnorableRanges c := by
  rcases toLower_eq_or c with heq | ⟨hlow, hhigh, hsmall⟩
  · rw [heq]
  · -- no letter of ASCII is ignorable
    rw [Bool.eq_iff_iff, inRanges_iff, inRanges_iff]
    refine iff_of_false ?_ ?_
    · rintro ⟨range, hmem, hfirst, hlast⟩
      have hletter := (not_ignorable_letter range hmem).2
      omega
    · rintro ⟨range, hmem, hfirst, hlast⟩
      have hletter := (not_ignorable_letter range hmem).1
      omega

theorem inRanges_cased_toLower (c : Char) :
    inRanges casedRanges c.toLower = inRanges casedRanges c := by
  rcases toLower_eq_or c with heq | ⟨hlow, hhigh, hsmall⟩
  · rw [heq]
  · -- all letters of ASCII are cased
    have hcapitals : (0x41, 0x5A) ∈ casedRanges := List.mem_cons_self
    have hsmalls : (0x61, 0x7A) ∈ casedRanges := List.mem_cons_of_mem _ List.mem_cons_self
    rw [Bool.eq_iff_iff, inRanges_iff, inRanges_iff]
    exact iff_of_true ⟨_, hsmalls, by omega, by omega⟩ ⟨_, hcapitals, hlow, hhigh⟩

theorem meetsLetter_map_toLower (text : List Char) :
    meetsLetter (text.map Char.toLower) = meetsLetter text := by
  have hignorable : inRanges caseIgnorableRanges ∘ Char.toLower = inRanges caseIgnorableRanges :=
    funext inRanges_caseIgnorable_toLower
  unfold meetsLetter
  rw [List.dropWhile_map, hignorable]
  cases text.dropWhile (inRanges caseIgnorableRanges) with
  | nil => rfl
  | cons c rest => exact inRanges_cased_toLower c

theorem foldAfter_map_toLower (before text : List Char) :
    foldAfter (before.map Char.toLower) (text.map Char.toLower) = foldAfter before text := by
  induction text generalizing before with
  | nil => rfl
  | cons c text ih =>
    have hrest := ih (c :: before)
    rw [List.map_cons] at hrest
    by_cases hc : c = 'Σ'
    · have hsigma : 'Σ'.toLower = 'Σ' := by decide
      rw [hc, hsigma] at hrest
      rw [hc, List.map_cons, hsigma, foldAfter_sigma, foldAfter_sigma, hrest,
        meetsLetter_map_toLower, meetsLetter_map_toLower]
    · have hne : c.toLower ≠ 'Σ' := by
        intro heq
        have hbeyond : isAscii c = false := by
          rw [← isAscii_toLower, heq]
          decide
        exact hc (by rw [← toLower_of_not_isAscii hbeyond, heq])
      rw [List.map_cons, foldAfter_cons_of_ne hne, foldAfter_cons_of_ne hc, hrest,
        lowerChar_toLower]

/-! ## Two spellings -/

theorem map_toLower_eq_of_sameIgnoringCase (h : sameIgnoringCase name other = true) :
    name.toList.map Char.toLower = other.toList.map Char.toLower :=
  eq_of_beq h

theorem lower_congr (h : sameIgnoringCase name other = true) :
    lower name.toList = lower other.toList := by
  rw [← lower_map_toLower, map_toLower_eq_of_sameIgnoringCase h, lower_map_toLower]

/-- Two spellings of a name fold alike. -/
theorem fold_congr (h : sameIgnoringCase name other = true) : fold name = fold other := by
  have hempty : ([] : List Char).map Char.toLower = [] := rfl
  rw [fold, fold, ← foldAfter_map_toLower, map_toLower_eq_of_sameIgnoringCase h, hempty]
  exact congrArg String.ofList (foldAfter_map_toLower [] other.toList)

theorem sameIgnoringCase_congr (h : sameIgnoringCase name other = true) (word : String) :
    sameIgnoringCase word name = sameIgnoringCase word other := by
  rw [sameIgnoringCase, sameIgnoringCase, map_toLower_eq_of_sameIgnoringCase h]

/-! ## The Kelvin sign -/

/-- The sign for degrees Kelvin, whose lower case is the letter k. -/
def kelvinSign : Char := Char.ofNat 0x212A

/-- The capital with that code point stands in the run. -/
def CapitalRun.Has (run : CapitalRun) (n : ℕ) : Prop :=
  run.first ≤ n ∧ n ≤ run.last ∧ (n - run.first) % run.step = 0

theorem exists_run_of_lowerInRuns? {n m : ℕ} {runs : List CapitalRun}
    (h : lowerInRuns? n runs = some m) :
    ∃ run ∈ runs, run.Has n ∧ m = (n + run.shift).toNat := by
  induction runs with
  | nil => cases h
  | cons run runs ih =>
    rw [lowerInRuns?] at h
    split at h
    case isTrue hrun =>
      cases h
      exact ⟨run, List.mem_cons_self, hrun, rfl⟩
    case isFalse =>
      obtain ⟨later, hmem, hlater⟩ := ih h
      exact ⟨later, List.mem_cons_of_mem run hmem, hlater⟩

/-- The lower cases of a run lie beyond ASCII, on one side of the code points that are no
characters. -/
def CapitalRun.StaysBeyond (run : CapitalRun) : Prop :=
  0x80 ≤ run.first + run.shift ∧
    (run.last + run.shift < 0xD800 ∨
      0xE000 ≤ run.first + run.shift ∧ run.last + run.shift < 0x110000)

instance (run : CapitalRun) : Decidable run.StaysBeyond :=
  inferInstanceAs (Decidable (_ ∧ _))

theorem staysBeyond_capitalRuns :
    ∀ run ∈ capitalRuns, run.first = 0x212A ∧ run.last = 0x212A ∨ run.StaysBeyond := by
  decide +kernel

theorem not_isAscii_ofNat {n : ℕ} (h : 0x80 ≤ n) (hvalid : n.isValidChar) :
    isAscii (Char.ofNat n) = false := by
  refine decide_eq_false fun hlt => ?_
  rw [Char.toNat_ofNat, if_pos hvalid] at hlt
  omega

/-- Only the Kelvin sign is beyond ASCII and has a lower case within. -/
theorem isAscii_of_lowerChar (h : ∀ x ∈ lowerChar c, isAscii x = true) :
    isAscii c = true ∨ c = kelvinSign := by
  unfold lowerChar at h
  split_ifs at h with hascii hdotted
  · exact .inl (decide_eq_true hascii)
  · have hdot := h (Char.ofNat 0x307) (by decide)
    exact absurd hdot (by decide)
  · split at h
    case h_1 n hn =>
      obtain ⟨run, hmem, ⟨hfirst, hlast, -⟩, rfl⟩ := exists_run_of_lowerInRuns? hn
      rcases staysBeyond_capitalRuns run hmem with ⟨hsign, hsign'⟩ | hbeyond
      · have hnat : c.toNat = 0x212A := by omega
        exact .inr (by rw [kelvinSign, ← hnat, Char.ofNat_toNat])
      · obtain ⟨hlow, hvalid⟩ := hbeyond
        have hletter := h _ List.mem_cons_self
        rw [not_isAscii_ofNat (by omega) (by unfold Nat.isValidChar; omega)] at hletter
        cases hletter
    case h_2 => exact .inl (h c List.mem_cons_self)

theorem isAscii_of_foldAfter (before : List Char) (hsign : kelvinSign ∉ t)
    (h : ∀ x ∈ foldAfter before t, isAscii x = true) : ∀ x ∈ t, isAscii x = true := by
  induction t generalizing before with
  | nil => exact nofun
  | cons c t ih =>
    rw [List.mem_cons, not_or] at hsign
    by_cases hc : c = 'Σ'
    · rw [hc, foldAfter_sigma] at h
      have hsmall := h _ List.mem_cons_self
      split_ifs at hsmall <;> exact absurd hsmall (by decide)
    · rw [foldAfter_cons_of_ne hc] at h
      have hhead := isAscii_of_lowerChar fun x hx => h x (List.mem_append_left _ hx)
      have htail := ih (c :: before) hsign.2 fun x hx => h x (List.mem_append_right _ hx)
      exact List.forall_mem_cons.2 ⟨hhead.resolve_right (Ne.symm hsign.1), htail⟩

/-! ## ASCII words -/

theorem toList_fold_of_isAscii (h : ∀ x ∈ name.toList, isAscii x = true) :
    (fold name).toList = name.toList.map Char.toLower := by
  have hsigma : ¬EndsInSigma name.toList := by
    rintro ⟨before, rest, htext, -, -⟩
    exact absurd (h 'Σ' (by rw [htext]; simp)) (by decide)
  rw [toList_fold_eq_lower_iff.2 hsigma, lower_of_isAscii h]

theorem sameIgnoringCase_fold_of_isAscii (h : ∀ x ∈ name.toList, isAscii x = true)
    (word : String) : sameIgnoringCase word (fold name) = sameIgnoringCase word name := by
  have htwice : Char.toLower ∘ Char.toLower = Char.toLower := funext toLower_toLower
  rw [sameIgnoringCase, sameIgnoringCase, toList_fold_of_isAscii h, List.map_map, htwice]

/-- An ASCII word is spelt by a name if it is spelt by what the name folds to, and the name has no
Kelvin sign. -/
theorem sameIgnoringCase_fold_iff (hword : ∀ x ∈ word.toList, isAscii x = true) :
    sameIgnoringCase word name = true ↔
      kelvinSign ∉ name.toList ∧ sameIgnoringCase word (fold name) = true := by
  constructor
  · intro h
    have hname := isAscii_of_map_toLower_eq (map_toLower_eq_of_sameIgnoringCase h).symm hword
    refine ⟨fun hmem => absurd (hname _ hmem) (by decide), ?_⟩
    rwa [sameIgnoringCase_fold_of_isAscii hname]
  · rintro ⟨hsign, h⟩
    have hfold := isAscii_of_map_toLower_eq (map_toLower_eq_of_sameIgnoringCase h).symm hword
    rw [fold, String.toList_ofList] at hfold
    rwa [sameIgnoringCase_fold_of_isAscii (isAscii_of_foldAfter [] hsign hfold)] at h

end Colourway.Text
