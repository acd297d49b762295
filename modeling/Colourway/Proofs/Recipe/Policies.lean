/-
  The two policies side by side. A recipe may be read word by word, with stray characters noted or
  refused where they are met (`Policy.step`). This is what reading it comes to (`read_eq_evaluate`):
  the strict reading stops at the first stray character, whatever else is wrong with the recipe,
  and the lenient one is the strict reading of the words without the stray ones
  (`evaluate_lenient`). What is noted tells which characters were passed over, and where
  (`skipNote_injective`).
-/
import Colourway.Catalogue.Basic
import Colourway.Proofs.Recipe.Reading
import Colourway.Proofs.Text.Quoted

namespace Colourway.Recipe

/-! ## Word by word -/

/-- A draft, and what was noted on the way. -/
structure Progress where
  draft : Draft
  notes : List Note

/-- One more word is read. -/
def Policy.step : Policy → Progress → ℕ × Word → Except Fault Progress
  | .strict, _, (position, .stray character) => .error (.strayCharacter position character)
  | .lenient, p, (position, .stray character) =>
    .ok { p with notes := p.notes ++ [skipNote (position, character)] }
  | _, p, (_, word) => .ok { p with draft := p.draft.step word }

/-- The words are read one after the other, until one is refused. -/
def run (policy : Policy) (words : List (ℕ × Word)) : Except Fault Progress :=
  words.foldlM policy.step ⟨.start, []⟩

/-- The gradient that the words describe. -/
def evaluate (policy : Policy) (words : List (ℕ × Word)) : Except Fault Gradient :=
  (run policy words).bind fun p => p.draft.finish

variable {s : Swatches} {policy : Policy} {text : String} {words before after : List (ℕ × Word)}
  {place : ℕ × Word} {position : ℕ} {character : Char}

theorem step_of_stray?_eq_none (h : place.2.stray? = none) (p : Progress) :
    policy.step p place = .ok ⟨p.draft.step place.2, p.notes⟩ := by
  obtain ⟨position, word⟩ := place
  cases word with
  | stray c => cases h
  | colour c => cases policy <;> rfl
  | adjustment m => cases policy <;> rfl
  | multiplier n => cases policy <;> rfl
  | transition => cases policy <;> rfl

theorem step_lenient (p : Progress) (place : ℕ × Word) :
    Policy.lenient.step p place =
      .ok ⟨p.draft.step place.2, p.notes ++ (strays [place]).map skipNote⟩ := by
  cases hstray : place.2.stray? with
  | none =>
    have hnone : strays [place] = [] := by simp [strays, hstray]
    rw [step_of_stray?_eq_none hstray, hnone, List.map_nil, List.append_nil]
  | some c =>
    obtain ⟨position, word⟩ := place
    cases word with
    | stray c => rfl
    | _ => cases hstray

theorem foldlM_step_lenient (words : List (ℕ × Word)) (p : Progress) :
    words.foldlM Policy.lenient.step p =
      .ok ⟨(words.map (·.2)).foldl Draft.step p.draft,
        p.notes ++ (strays words).map skipNote⟩ := by
  induction words generalizing p with
  | nil =>
    have hnil : (strays []).map skipNote = [] := rfl
    rw [hnil, List.append_nil]
    rfl
  | cons place words ih =>
    have hcons : strays (place :: words) = strays [place] ++ strays words :=
      List.filterMap_append (l := [place])
    rw [List.foldlM_cons, step_lenient, hcons, List.map_append, ← List.append_assoc]
    exact ih _

/-- Nothing is refused by the lenient policy. -/
theorem run_lenient (words : List (ℕ × Word)) :
    run .lenient words =
      .ok ⟨.ofWords (words.map (·.2)), (strays words).map skipNote⟩ :=
  foldlM_step_lenient words _

/-- Neither policy has a say where there is no stray character. -/
theorem foldlM_step_of_no_strays (h : strays words = []) (p : Progress) :
    words.foldlM policy.step p =
      .ok ⟨(words.map (·.2)).foldl Draft.step p.draft, p.notes⟩ := by
  induction words generalizing p with
  | nil => rfl
  | cons place words ih =>
    rw [strays_eq_nil_iff, List.forall_mem_cons] at h
    rw [List.foldlM_cons, step_of_stray?_eq_none h.1]
    exact ih (strays_eq_nil_iff.2 h.2) _

theorem run_strict_of_stray (h : strays before = []) :
    run .strict (before ++ (position, .stray character) :: after) =
      .error (.strayCharacter position character) := by
  rw [run, List.foldlM_append, foldlM_step_of_no_strays h]
  rfl

theorem exists_first_stray {rest : List (ℕ × Char)}
    (h : strays words = (position, character) :: rest) :
    ∃ before after, words = before ++ (position, .stray character) :: after ∧
      strays before = [] := by
  obtain ⟨before, ⟨i, word⟩, after, rfl, hbefore, hfound, -⟩ := List.filterMap_eq_cons_iff.1 h
  refine ⟨before, after, ?_, List.filterMap_eq_nil_iff.2 hbefore⟩
  cases word with
  | stray c =>
    cases hfound
    rfl
  | _ => cases hfound

/-! ## The gradient -/

theorem evaluate_of_no_strays (h : strays words = []) :
    evaluate policy words = (Draft.ofWords (words.map (·.2))).finish := by
  rw [evaluate, run, foldlM_step_of_no_strays h]
  rfl

theorem evaluate_lenient_eq_finish (words : List (ℕ × Word)) :
    evaluate .lenient words = (Draft.ofWords (words.map (·.2))).finish := by
  rw [evaluate, run_lenient]
  rfl

theorem read_eq_evaluate (s : Swatches) (policy : Policy) (text : String) :
    read s policy text = evaluate policy (wordsOf s text) := by
  cases hs : strays (wordsOf s text) with
  | nil => rw [read_of_no_strays hs, evaluate_of_no_strays hs]
  | cons place rest =>
    cases policy with
    | lenient =>
      have hread : read s .lenient text =
          (Draft.ofWords ((wordsOf s text).map (·.2))).finish := by
        unfold read
        dsimp only
      rw [hread, evaluate_lenient_eq_finish]
    | strict =>
      obtain ⟨before, after, hwords, hbefore⟩ := exists_first_stray hs
      have hread : read s .strict text = .error (.strayCharacter place.1 place.2) := by
        unfold read
        dsimp only
        rw [hs]
      rw [hread, hwords, evaluate, run_strict_of_stray hbefore]
      rfl

/-- The words that are no stray characters. -/
def recognised (words : List (ℕ × Word)) : List (ℕ × Word) :=
  words.filter fun place => place.2.stray?.isNone

theorem strays_recognised (words : List (ℕ × Word)) : strays (recognised words) = [] := by
  refine strays_eq_nil_iff.2 fun place hplace => ?_
  exact Option.isNone_iff_eq_none.1 (List.mem_filter.1 hplace).2

theorem ofWords_recognised (words : List (ℕ × Word)) :
    Draft.ofWords ((recognised words).map (·.2)) = Draft.ofWords (words.map (·.2)) := by
  have hstep : ∀ d : Draft, ∀ place : ℕ × Word, place.2.stray?.isNone = false →
      d.step place.2 = d := by
    rintro d ⟨i, word⟩ h
    cases word with
    | stray c => rfl
    | _ => cases h
  rw [Draft.ofWords, Draft.ofWords, List.foldl_map, List.foldl_map, recognised,
    List.foldl_filter]
  congr 1
  funext d place
  split_ifs with h
  · rfl
  · exact (hstep d place (Bool.eq_false_iff.2 h)).symm

theorem evaluate_lenient (words : List (ℕ × Word)) :
    evaluate .lenient words = evaluate .strict (recognised words) := by
  rw [evaluate_of_no_strays (strays_recognised words), ofWords_recognised,
    evaluate_lenient_eq_finish]

/-! ## Notes -/

theorem append_cons_inj {α : Type} {x y x' y' : List α} {a : α} (hy : a ∉ y) (hy' : a ∉ y')
    (h : x ++ a :: y = x' ++ a :: y') : x = x' ∧ y = y' := by
  rcases List.append_eq_append_iff.1 h with ⟨z, hx, htail⟩ | ⟨z, hx, htail⟩
  · cases z with
    | nil => exact ⟨by rw [hx, List.append_nil], (List.cons.inj htail).2⟩
    | cons b z =>
      have hmem : a ∈ z ++ a :: y' := List.mem_append_right z List.mem_cons_self
      exact absurd ((List.cons.inj htail).2 ▸ hmem) hy
  · cases z with
    | nil => exact ⟨by rw [hx, List.append_nil], (List.cons.inj htail).2.symm⟩
    | cons b z =>
      have hmem : a ∈ z ++ a :: y := List.mem_append_right z List.mem_cons_self
      exact absurd ((List.cons.inj htail).2 ▸ hmem) hy'

/-- The offset stands behind the last blank of the note. -/
theorem skipNote_injective : Function.Injective skipNote := by
  have hmessage : ∀ place : ℕ × Char, (skipNote place).message.toList =
      "Skipping ".toList ++ (Text.quoteChar place.2).toList ++ " at offset".toList ++
        ' ' :: place.1.repr.toList := fun place => by
    have hjoin : (skipNote place).message =
        "Skipping " ++ Text.quoteChar place.2 ++ " at offset " ++ place.1.repr := rfl
    have hblank : " at offset ".toList = " at offset".toList ++ [' '] := by decide
    rw [hjoin, String.toList_append, String.toList_append, String.toList_append, hblank]
    simp only [List.append_assoc, List.singleton_append]
  have hdigits : ∀ n : ℕ, ' ' ∉ n.repr.toList := fun n hmem => by
    rw [Nat.toList_repr] at hmem
    exact absurd (Nat.isDigit_of_mem_toDigits (by decide) le_rfl hmem) (by decide)
  intro place place' h
  have hlist := congrArg (fun note : Note => note.message.toList) h
  rw [hmessage, hmessage] at hlist
  obtain ⟨hfront, hback⟩ := append_cons_inj (hdigits _) (hdigits _) hlist
  have hquoted := List.append_cancel_left (List.append_cancel_right hfront)
  exact Prod.ext (Nat.repr_inj.1 (String.toList_inj.1 hback))
    (Text.quoteChar_injective (String.toList_inj.1 hquoted))

theorem filter_trace_notes (s : Swatches) (text : String) :
    (notes s .lenient text).filter (·.level = .trace) =
      (strays (wordsOf s text)).map skipNote := by
  have hkeep : ((strays (wordsOf s text)).map skipNote).filter (·.level = .trace) =
      (strays (wordsOf s text)).map skipNote :=
    List.filter_eq_self.2 fun note hnote => by
      obtain ⟨place, -, rfl⟩ := List.mem_map.1 hnote
      rfl
  unfold notes
  cases read s .lenient text with
  | ok g => exact (List.filter_append _ _).trans (by rw [hkeep]; exact List.append_nil _)
  | error e => exact hkeep

/-- The two policies differ where there are stray characters only. The strict one refuses the first
of them, whatever else is wrong; the lenient one reads the other words as the strict one would, and
notes every stray character in its place, the first one refused by the strict policy first. -/
theorem readRecipe_policies (s : Swatches) (text : String) :
    (∀ policy, Catalogue.readRecipe s policy text =
      (evaluate policy (wordsOf s text)).mapError (.malformed text)) ∧
    ((∀ place ∈ wordsOf s text, place.2.stray? = none) →
      Catalogue.readRecipe s .strict text = Catalogue.readRecipe s .lenient text) ∧
    ((∃ place ∈ wordsOf s text, place.2.stray? ≠ none) →
      ∃ before position character after,
        wordsOf s text = before ++ (position, .stray character) :: after ∧
        (∀ place ∈ before, place.2.stray? = none) ∧
        Catalogue.readRecipe s .strict text =
          .error (.malformed text (.strayCharacter position character)) ∧
        (strays (wordsOf s text)).head? = some (position, character)) ∧
    Catalogue.readRecipe s .lenient text =
      (evaluate .strict (recognised (wordsOf s text))).mapError (.malformed text) ∧
    (notes s .lenient text).filter (·.level = .trace) =
      (strays (wordsOf s text)).map skipNote ∧
    Function.Injective skipNote := by
  have hread : ∀ policy, Catalogue.readRecipe s policy text =
      (evaluate policy (wordsOf s text)).mapError (.malformed text) := fun policy => by
    rw [Catalogue.readRecipe, read_eq_evaluate]
  refine ⟨hread, fun hnone => ?_, fun hsome => ?_, ?_, filter_trace_notes s text,
    skipNote_injective⟩
  · have hstrays := strays_eq_nil_iff.2 hnone
    rw [hread, hread, evaluate_of_no_strays hstrays, evaluate_of_no_strays hstrays]
  · cases hstrays : strays (wordsOf s text) with
    | nil =>
      obtain ⟨place, hplace, hstray⟩ := hsome
      exact absurd (strays_eq_nil_iff.1 hstrays place hplace) hstray
    | cons first rest =>
      obtain ⟨before, after, hwords, hbefore⟩ := exists_first_stray hstrays
      refine ⟨before, first.1, first.2, after, hwords, strays_eq_nil_iff.1 hbefore, ?_, rfl⟩
      rw [hread, hwords, evaluate, run_strict_of_stray hbefore]
      rfl
  · rw [hread, evaluate_lenient]

/-- A comma and a blank, and a transition to nothing. -/
theorem readRecipe_policies_comma :
    Catalogue.readRecipe .basic .strict "BlueTo, " =
        .error (.malformed "BlueTo, " (.strayCharacter 6 ',')) ∧
      Catalogue.readRecipe .basic .lenient "BlueTo, " =
        .error (.malformed "BlueTo, " .trailingTransition) ∧
      Catalogue.readRecipe .basic .strict "BlueTo" =
        Catalogue.readRecipe .basic .lenient "BlueTo" := by
  have hwords : wordsOf .basic "BlueTo, " =
      [(0, .colour (.rgb 0 0 255)), (4, .transition), (6, .stray ','), (7, .stray ' ')] := by
    decide +kernel
  have hplain : ∀ place ∈ wordsOf .basic "BlueTo", place.2.stray? = none := by decide +kernel
  obtain ⟨-, -, hrefused, hlenient, -⟩ := readRecipe_policies .basic "BlueTo, "
  obtain ⟨before, position, character, after, hsplit, -, hstrict, hfirst⟩ :=
    hrefused ⟨(6, .stray ','), by rw [hwords]; decide, by decide⟩
  have hplace : (6, ',') = (position, character) := by
    rw [hwords] at hfirst
    exact Option.some.inj hfirst
  cases hplace
  refine ⟨hstrict, ?_, (readRecipe_policies .basic "BlueTo").2.1 hplain⟩
  rw [hlenient, hwords, ← evaluate_lenient, evaluate_lenient_eq_finish]
  rfl

end Colourway.Recipe
