/-
  Recipes as texts. What becomes of a recipe depends on the words of its lower case alone,
  once its stray characters are out of the way (`read_of_no_strays`, `read_strict_eq_ok_iff`);
  and no multiplier that can be written is zero (`positive_wordsOf`), so all that is known of
  runs of words without a zero multiplier holds of every recipe.
-/
import Colourway.Proofs.Recipe.Draft
import Colourway.Proofs.Recipe.Vocabulary
import Colourway.Recipe.Reading

namespace Colourway.Recipe

/-! ## Words of a text -/

theorem map_snd_placeFrom (offset : Nat) (ps : List Piece) :
    (placeFrom offset ps).map (·.2) = ps.map (·.word) := by
  induction ps generalizing offset with
  | nil => rfl
  | cons p ps ih => rw [placeFrom, List.map_cons, List.map_cons, ih]

theorem map_snd_wordsOf (s : Swatches) (text : String) :
    (wordsOf s text).map (·.2) = (scan s (Text.lower text.toList)).map (·.word) := by
  rw [wordsOf_eq, List.map_map, ← map_snd_placeFrom 0]
  rfl

theorem one_le_of_mem_multiplierWords : ∀ e ∈ Multiplier.words, 1 ≤ e.2.val := by
  decide

theorem positive_scan (s : Swatches) (text : List Char) :
    Positive ((scan s text).map (·.word)) := by
  intro n hn
  obtain ⟨p, hp, hword⟩ := List.mem_map.1 hn
  obtain ⟨rest, hselected⟩ := exists_selected_of_mem_scan hp
  cases hselected with
  | multiplier _ _ _ hmem _ =>
    cases hword
    exact one_le_of_mem_multiplierWords _ hmem
  | name _ => cases hword
  | code _ _ _ _ => cases hword
  | adjustment _ _ _ => cases hword
  | transition _ _ _ _ _ => cases hword
  | stray _ _ _ _ _ _ => cases hword

theorem positive_wordsOf (s : Swatches) (text : String) :
    Positive ((wordsOf s text).map (·.2)) := by
  rw [map_snd_wordsOf]
  exact positive_scan s _

/-! ## Stray characters -/

theorem strays_eq_nil_iff {words : List (ℕ × Word)} :
    strays words = [] ↔ ∀ place ∈ words, place.2.stray? = none := by
  simp only [strays, List.filterMap_eq_nil_iff, Option.map_eq_none_iff]

theorem strays_wordsOf_eq_nil_iff {s : Swatches} {text : String} :
    strays (wordsOf s text) = [] ↔
      ∀ p ∈ scan s (Text.lower text.toList), p.word.stray? = none := by
  have hmap := List.forall_mem_map (f := Prod.snd) (l := wordsOf s text)
    (P := fun w : Word => w.stray? = none)
  rw [strays_eq_nil_iff, ← hmap, map_snd_wordsOf, List.forall_mem_map]

theorem read_of_no_strays {s : Swatches} {policy : Policy} {text : String}
    (h : strays (wordsOf s text) = []) :
    read s policy text = (Draft.ofWords ((wordsOf s text).map (·.2))).finish := by
  unfold read
  dsimp only
  rw [h]
  cases policy <;> rfl

theorem read_strict_eq_ok_iff {s : Swatches} {text : String} {g : Gradient} :
    read s .strict text = .ok g ↔
      strays (wordsOf s text) = [] ∧
        (Draft.ofWords ((wordsOf s text).map (·.2))).finish = .ok g := by
  cases hs : strays (wordsOf s text) with
  | nil => rw [read_of_no_strays hs]; simp
  | cons place rest =>
    unfold read
    dsimp only
    rw [hs]
    simp

end Colourway.Recipe
