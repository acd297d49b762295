/-
  Folding beside lower case. The two disagree about a capital sigma that ends a word
  (`EndsInSigma`), and about nothing else (`toList_fold_eq_lower_iff`). One character stands in
  the place of the other, so both results are of one length (`length_fold`).
-/
import Colourway.Proofs.Text.LetterCase

namespace Colourway.Text

/-- A capital sigma ends a word: a letter comes before it, and none behind it. -/
def EndsInSigma (text : List Char) : Prop :=
  ∃ before rest, text = before ++ 'Σ' :: rest ∧
    meetsLetter before.reverse = true ∧ meetsLetter rest = false

theorem lowerChar_sigma : lowerChar 'Σ' = ['σ'] := by
  decide

theorem lower_cons (c : Char) (text : List Char) : lower (c :: text) = lowerChar c ++ lower text :=
  List.flatMap_cons

theorem foldAfter_sigma (before text : List Char) :
    foldAfter before ('Σ' :: text) =
      (if meetsLetter before && !meetsLetter text then 'ς' else 'σ') ::
        foldAfter ('Σ' :: before) text := rfl

theorem foldAfter_cons_of_ne {c : Char} (h : c ≠ 'Σ') (before text : List Char) :
    foldAfter before (c :: text) = lowerChar c ++ foldAfter (c :: before) text := by
  rw [foldAfter, if_neg h]

/-! ## Lengths -/

theorem length_foldAfter (before text : List Char) :
    (foldAfter before text).length = (lower text).length := by
  induction text generalizing before with
  | nil => rfl
  | cons c text ih =>
    by_cases hc : c = 'Σ'
    · rw [hc, foldAfter_sigma, lower_cons, lowerChar_sigma, List.length_cons, ih]
      rfl
    · rw [foldAfter_cons_of_ne hc, lower_cons, List.length_append, List.length_append, ih]

theorem length_fold (name : String) : (fold name).length = (lower name.toList).length := by
  rw [fold, String.length_ofList, length_foldAfter]

theorem lower_eq_nil_iff {text : List Char} : lower text = [] ↔ text = [] := by
  cases text with
  | nil => simp [lower]
  | cons c text =>
    rw [lower_cons]
    simp [lowerChar_ne_nil]

/-! ## Final sigmas -/

theorem foldAfter_eq_lower_iff (before text : List Char) :
    foldAfter before text = lower text ↔
      ∀ middle rest, text = middle ++ 'Σ' :: rest →
        meetsLetter (middle.reverse ++ before) = true → meetsLetter rest = true := by
  induction text generalizing before with
  | nil => simp [foldAfter, lower]
  | cons c text ih =>
    have hfirst : foldAfter before (c :: text) = lower (c :: text) ↔
        (c = 'Σ' → meetsLetter before = true → meetsLetter text = true) ∧
          foldAfter (c :: before) text = lower text := by
      by_cases hc : c = 'Σ'
      · rw [hc, foldAfter_sigma, lower_cons, lowerChar_sigma, List.singleton_append,
          List.cons.injEq]
        refine and_congr_left fun _ => ?_
        cases meetsLetter before <;> cases meetsLetter text <;> decide
      · rw [foldAfter_cons_of_ne hc, lower_cons, List.append_cancel_left_eq]
        simp [hc]
    rw [hfirst, ih]
    constructor
    · rintro ⟨hhead, htail⟩ middle rest htext hbefore
      cases middle with
      | nil =>
        obtain ⟨rfl, rfl⟩ := List.cons.inj htext
        exact hhead rfl hbefore
      | cons d middle =>
        obtain ⟨rfl, rfl⟩ := List.cons.inj htext
        rw [List.reverse_cons, List.append_assoc] at hbefore
        exact htail middle rest rfl hbefore
    · intro h
      refine ⟨fun hc => h [] text (by rw [hc]; rfl), fun middle rest htext hbefore => ?_⟩
      refine h (c :: middle) rest (by rw [htext]; rfl) ?_
      rwa [List.reverse_cons, List.append_assoc]

/-- A name folds to its lower case, unless a capital sigma ends a word in it. -/
theorem toList_fold_eq_lower_iff {name : String} :
    (fold name).toList = lower name.toList ↔ ¬EndsInSigma name.toList := by
  rw [fold, String.toList_ofList, foldAfter_eq_lower_iff]
  constructor
  · rintro h ⟨before, rest, htext, hbefore, hrest⟩
    have hletter := h before rest htext (by rwa [List.append_nil])
    rw [hrest] at hletter
    exact Bool.false_ne_true hletter
  · intro h before rest htext hbefore
    rw [List.append_nil] at hbefore
    by_contra hrest
    exact h ⟨before, rest, htext, hbefore, Bool.eq_false_of_not_eq_true hrest⟩

/-- There is no capital letter in a text that is its own lower case, so it is folded to itself. -/
theorem IsLower.fold_eq {name : String} (h : IsLower name.toList) : fold name = name := by
  have hsigma : ¬EndsInSigma name.toList := by
    rintro ⟨before, rest, htext, -, -⟩
    have hself : lowerChar 'Σ' = ['Σ'] := h 'Σ' (htext ▸ by simp)
    rw [lowerChar_sigma] at hself
    exact absurd hself (by decide)
  rw [← String.toList_inj, toList_fold_eq_lower_iff.2 hsigma, h.lower_eq]

end Colourway.Text
