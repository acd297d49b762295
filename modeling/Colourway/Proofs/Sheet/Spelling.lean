/-
  What a sheet is made of. Colours and maps stand under their folded names (`keyed_foldl`), so they
  are told by looking names up; uses stand under the names of the maps that have a line of their
  own (`isSome_getUses_foldl`).

  A map is its spelling, its recipe and its owner (`map?_eq`). The recipe and the owner are told
  by the last setting. The spelling is not: a map keeps that of the first setting about it, and only
  an alternate of its name takes it over (`spelling?_foldl`).
-/
import Colourway.Proofs.Sheet.Keyed
import Colourway.Proofs.Sheet.Lookup

namespace Colourway.Sheet

variable {x : Setting} {s s' : Sheet} {q : String}

theorem keyed_foldl (xs : List Setting) : (xs.foldl apply empty).Keyed := by
  have hentries : ∀ (ys : List Setting) (s : Sheet),
      ys.foldl apply s = (ys.map Setting.entry).foldl add s := by
    intro ys s
    rw [List.foldl_map]
    rfl
  rw [hentries]
  exact keyed_empty.foldl_add _

/-! ## How a map is spelt -/

namespace Setting

/-- The name of a map as the setting spells it, if it folds as a name does. -/
def mapFor? (q : String) (x : Setting) : Option String :=
  x.topic?.bind fun t => if Text.fold t.map = Text.fold q then some t.map else none

/-- The name of an alternate that a name becomes. -/
def targetFor? (q : String) (x : Setting) : Option String :=
  x.topic?.bind fun t =>
    if t.RecipeOf q ∧ Text.fold t.target ≠ Text.fold t.map then some t.target else none

theorem targetFor?_eq_none_iff : x.targetFor? q = none ↔ x.ownerFor? q = none := by
  unfold targetFor? ownerFor?
  cases x.topic? with
  | none => exact Iff.rfl
  | some t =>
    rw [Option.bind_some, Option.bind_some]
    split
    case isTrue => exact iff_of_false (fun h => nomatch h) (fun h => nomatch h)
    case isFalse => exact Iff.rfl

end Setting

/-- The name of the map, spelt as in the sheet. -/
def spelling? (s : Sheet) (q : String) : Option String := (s.map? q).map (·.name)

theorem spelling?_apply (s : Sheet) (x : Setting) (q : String) :
    (s.apply x).spelling? q = (x.targetFor? q).or ((s.spelling? q).or (x.mapFor? q)) := by
  unfold spelling? Setting.targetFor? Setting.mapFor?
  cases ht : x.topic? with
  | none =>
    rw [map?_apply_of_no_topic ht]
    simp
  | some t =>
    rw [map?_apply ht, Option.bind_some, Option.bind_some]
    by_cases hrecipe : t.RecipeOf q
    · by_cases hsame : Text.fold t.target = Text.fold t.map
      · have hmap : Text.fold t.map = Text.fold q := hsame.symm.trans hrecipe.fold_target_eq
        have hnot : ¬(t.RecipeOf q ∧ Text.fold t.target ≠ Text.fold t.map) := fun h => h.2 hsame
        rw [if_pos hrecipe, if_pos hsame, if_neg hnot, if_pos hmap]
        cases s.map? q <;> rfl
      · rw [if_pos hrecipe, if_neg hsame, if_pos ⟨hrecipe, hsame⟩]
        rfl
    · have hnot : ¬(t.RecipeOf q ∧ Text.fold t.target ≠ Text.fold t.map) := fun h => hrecipe h.1
      rw [if_neg hrecipe, if_neg hnot, Option.none_or]
      split
      case isTrue => cases s.map? q <;> rfl
      case isFalse => rw [Option.or_none]

theorem head?_filterMap_cons {α β : Type} (f : α → Option β) (x : α) (xs : List α) :
    ((x :: xs).filterMap f).head? = (f x).or (xs.filterMap f).head? := by
  cases hx : f x with
  | none => rw [List.filterMap_cons_none hx, Option.none_or]
  | some b => rw [List.filterMap_cons_some hx, List.head?_cons, Option.some_or]

/-- A map is spelt as the last alternate of its name, or else as it was spelt first. -/
theorem spelling?_foldl (xs : List Setting) (s : Sheet) (q : String) :
    (xs.foldl apply s).spelling? q = (xs.filterMap (·.targetFor? q)).getLast?.or
      ((s.spelling? q).or (xs.filterMap (·.mapFor? q)).head?) := by
  induction xs generalizing s with
  | nil => simp
  | cons x xs ih =>
    rw [List.foldl_cons, ih, spelling?_apply, head?_filterMap_cons]
    cases hx : x.targetFor? q with
    | none => rw [List.filterMap_cons_none hx, Option.none_or, Option.or_assoc]
    | some name =>
      rw [List.filterMap_cons_some hx, List.getLast?_cons, Option.some_or, Option.some_or]
      cases (xs.filterMap (·.targetFor? q)).getLast? <;> rfl

/-- A map is its spelling, its recipe and its owner. -/
theorem map?_eq (s : Sheet) (q : String) :
    s.map? q = (s.spelling? q).map fun name => ⟨name, s.recipe? q, s.ownerKey q⟩ := by
  unfold spelling? recipe? ownerKey
  cases s.map? q <;> rfl

theorem map?_eq_iff (hrecipe : s'.recipe? q = s.recipe? q) (howner : s'.ownerKey q = s.ownerKey q) :
    s'.map? q = s.map? q ↔ s'.spelling? q = s.spelling? q := by
  constructor
  · intro h
    rw [spelling?, spelling?, h]
  · intro h
    rw [map?_eq, map?_eq s, h, hrecipe, howner]

/-! ## Where uses are kept -/

theorem uses?_eq (s : Sheet) (q : String) :
    s.uses? q = if (s.map? q).isSome then s.uses.get? (s.ownerKey q) else none := by
  unfold uses? ownerKey
  cases s.map? q <;> rfl

theorem isSome_getUses_foldl (xs : List Setting) (s : Sheet) (q : String) :
    ((xs.foldl apply s).uses.get? (Text.fold q)).isSome ↔
      (∃ x ∈ xs, x.mapFor? q ≠ none) ∨ (s.uses.get? (Text.fold q)).isSome := by
  have hstep : ∀ (s : Sheet) (x : Setting), ((s.apply x).uses.get? (Text.fold q)).isSome ↔
      x.mapFor? q ≠ none ∨ (s.uses.get? (Text.fold q)).isSome := by
    intro s x
    unfold Setting.mapFor?
    cases ht : x.topic? with
    | none =>
      rw [(maps_and_uses_apply_of_no_topic ht s).2]
      simp
    | some t =>
      rw [getUses_apply ht, Option.bind_some]
      split_ifs with hmap
      · simp
      · simp
  induction xs generalizing s with
  | nil => simp
  | cons x xs ih =>
    rw [List.foldl_cons]
    refine (ih (s.apply x)).trans ?_
    rw [hstep, List.exists_mem_cons_iff, or_left_comm, or_assoc]

end Colourway.Sheet
