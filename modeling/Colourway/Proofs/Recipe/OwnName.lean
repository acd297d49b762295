/-
  A recipe that is nothing but the name of a colour that was added. The name is added folded and
  looked for in lower case. As long as the two agree the recipe is one word, whatever other names
  it begins with, and gives the stop of the colour. They differ where a capital sigma ends a
  word; then the folded name is as long as the recipe without being the recipe, so it does not
  stand anywhere in it. `readRecipe_own_name` states both.
-/
import Colourway.Proofs.Recipe.Unrelated
import Colourway.Proofs.Recipe.Writing
import Colourway.Proofs.Text.FinalSigma

namespace Colourway.Recipe

variable {s t : Swatches} {name : String} {c : Colour}

/-! ## A name that is its own lower case -/

theorem scan_insert_self (h : Text.fold name ≠ "") :
    scan (s.insert name c) (Text.fold name).toList = [⟨.colour c, (Text.fold name).toList⟩] := by
  have hword : word? (s.insert name c) ((Text.fold name).toList ++ []) =
      some ⟨.colour c, (Text.fold name).toList⟩ := by
    rw [List.append_nil, word?, colourName?, Swatches.longestAtStart?_insert_self h,
      Option.map_some, Option.some_or]
  have hscan := scan_append_of_word? (p := ⟨.colour c, (Text.fold name).toList⟩) hword
  rwa [List.append_nil, scan_nil] at hscan

/-- A recipe of one colour gives the stop of this colour. -/
theorem exists_readRecipe_of_scan {text : String} {piece : List Char} (policy : Policy)
    (h : scan s (Text.lower text.toList) = [⟨.colour c, piece⟩]) :
    ∃ g, Catalogue.readRecipe s policy text = .ok g ∧ g.stops = [Stop.ofColour c] := by
  have hwords : (wordsOf s text).map (·.2) = codes [c] := by
    rw [map_snd_wordsOf, h]
    rfl
  have hstrays : strays (wordsOf s text) = [] := by
    refine strays_wordsOf_eq_nil_iff.2 fun p hp => ?_
    rw [h] at hp
    rw [List.mem_singleton.1 hp]
    rfl
  have hsound : (Draft.ofWords (codes [c])).Sound :=
    Draft.sound_ofWords (hwords ▸ positive_wordsOf s text)
  have hlen : (Draft.ofWords (codes [c])).stops.length ≤ Gradient.maxStops := by
    rw [stops_codes, List.length_map, List.length_singleton]
    decide
  obtain ⟨g, hg, hstops⟩ := Draft.exists_finish_eq_ok hsound
    (members_codes (List.cons_ne_nil c [])) hlen
  refine ⟨g, readRecipe_eq_ok_iff.2 ?_, hstops.trans (stops_codes [c])⟩
  rw [read_of_no_strays hstrays, hwords, hg]

/-! ## A name that is not -/

theorem readRecipe_congr {text : String} (policy : Policy)
    (h : scan s (Text.lower text.toList) = scan t (Text.lower text.toList)) :
    Catalogue.readRecipe s policy text = Catalogue.readRecipe t policy text := by
  unfold Catalogue.readRecipe read
  rw [wordsOf_congr h]

/-- A name that folds to something else than its lower case stands nowhere in it. -/
theorem not_fold_infix_lower (h : (Text.fold name).toList ≠ Text.lower name.toList) :
    ¬(Text.fold name).toList <:+: Text.lower name.toList := by
  intro hpart
  have hlen := Text.length_fold name
  rw [← String.length_toList] at hlen
  exact h (hpart.eq_of_length hlen)

theorem scan_insert_of_fold_ne (h : (Text.fold name).toList ≠ Text.lower name.toList) :
    scan (s.insert name c) (Text.lower name.toList) = scan s (Text.lower name.toList) :=
  scan_insert_of_absent (not_fold_infix_lower h)

/-! ## Both -/

/-- The name of an added colour is a recipe for this colour. Only if a capital sigma ends a word
in the name, the recipe is read as if the colour had not been added. -/
theorem readRecipe_own_name (s : Swatches) {name : String} (hname : name ≠ "") (c : Colour)
    (policy : Policy) :
    (¬Text.EndsInSigma name.toList →
      ∃ g, Catalogue.readRecipe (s.insert name c) policy name = .ok g ∧
        g.stops = [Stop.ofColour c]) ∧
    (Text.EndsInSigma name.toList →
      Catalogue.readRecipe (s.insert name c) policy name =
        Catalogue.readRecipe s policy name) := by
  constructor
  · intro hsigma
    have hfold := Text.toList_fold_eq_lower_iff.2 hsigma
    have hne : Text.fold name ≠ "" := fun hempty => by
      rw [hempty] at hfold
      exact hname (String.toList_inj.1 (Text.lower_eq_nil_iff.1 hfold.symm))
    exact exists_readRecipe_of_scan policy (hfold ▸ scan_insert_self hne)
  · intro hsigma
    have hfold := mt Text.toList_fold_eq_lower_iff.1 (not_not.2 hsigma)
    exact readRecipe_congr policy (scan_insert_of_fold_ne hfold)

/-- A name with capitals that have no final form, and one that ends in a sigma. -/
theorem readRecipe_own_name_greek :
    let s := Swatches.basic.insert "ΣΟ" .black
    "ΣΟΦΊΑ" ≠ "" ∧ ¬Text.EndsInSigma "ΣΟΦΊΑ".toList ∧
      (∃ g, Catalogue.readRecipe (s.insert "ΣΟΦΊΑ" .white) .strict "ΣΟΦΊΑ" = .ok g ∧
        g.stops = [Stop.ofColour .white]) ∧
      "ΑΣ" ≠ "" ∧ Text.EndsInSigma "ΑΣ".toList ∧
      Catalogue.readRecipe (s.insert "ΑΣ" .white) .lenient "ΑΣ" =
        Catalogue.readRecipe s .lenient "ΑΣ" := by
  intro s
  have hsophia : ¬Text.EndsInSigma "ΣΟΦΊΑ".toList :=
    Text.toList_fold_eq_lower_iff.1 (by decide +kernel)
  have has : Text.EndsInSigma "ΑΣ".toList :=
    ⟨['Α'], [], by decide, by decide +kernel, by decide +kernel⟩
  have hsophia' : "ΣΟΦΊΑ" ≠ "" := by decide
  have has' : "ΑΣ" ≠ "" := by decide
  exact ⟨hsophia', hsophia, (readRecipe_own_name s hsophia' .white .strict).1 hsophia, has', has,
    (readRecipe_own_name s has' .white .lenient).2 has⟩

/-- Not every name is a recipe for its colour: the last letter of this one folds to a final
sigma, and is looked for as another. -/
theorem readRecipe_own_name_sigma :
    let s := Swatches.basic.insert "ΑΣ" (.rgb 1 2 3)
    "ΑΣ" ≠ "" ∧ s.get? "ΑΣ" = some (.rgb 1 2 3) ∧
      Catalogue.readRecipe s .lenient "ΑΣ" = .error (.malformed "ΑΣ" .noColours) ∧
      Catalogue.readRecipe s .strict "ΑΣ" = .error (.malformed "ΑΣ" (.strayCharacter 0 'α')) := by
  intro s
  have hwords : wordsOf s "ΑΣ" = [(0, .stray 'α'), (2, .stray 'σ')] := by decide +kernel
  refine ⟨by decide, by decide +kernel, ?_, ?_⟩
  · unfold Catalogue.readRecipe read
    rw [hwords]
    rfl
  · unfold Catalogue.readRecipe read
    rw [hwords]
    rfl

end Colourway.Recipe
