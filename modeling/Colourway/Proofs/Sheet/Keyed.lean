/-
  Names and keys of a sheet. Colours and maps keep the spelling of their names, and stand under the
  folded name (`Sheet.Keyed`). This holds of the empty sheet, and every entry keeps it
  (`Keyed.add`), so it holds of all sheets that are read (`keyed_of_read`). Nothing but look-ups is
  then needed to tell the colours and maps of two sheets apart (`eq_of_lookups`).
-/
import Mathlib
import Colourway.Sheet.Basic

namespace Colourway

namespace Sheet

/-- Every name folds to the key under which it is kept. -/
structure Keyed (s : Sheet) : Prop where
  fold_swatch : ∀ key w, s.colours.get? key = some w → Text.fold w.name = key
  fold_map : ∀ key m, s.maps.get? key = some m → Text.fold m.name = key

theorem keyed_empty : empty.Keyed := ⟨fun _ _ h => (nomatch h), fun _ _ h => (nomatch h)⟩

variable {s s' : Sheet}

theorem Keyed.mention (h : s.Keyed) (name : String) : (s.mention name).Keyed := by
  refine ⟨h.fold_swatch, fun key m hm => ?_⟩
  unfold Sheet.mention at hm
  rw [NameTable.get?_insertNew] at hm
  split at hm
  case isTrue hkey =>
    cases hold : s.maps.get? key with
    | none =>
      rw [hold] at hm
      cases hm
      exact hkey
    | some old =>
      rw [hold] at hm
      cases hm
      exact h.fold_map key old hold
  case isFalse => exact h.fold_map key m hm

theorem Keyed.setField (h : s.Keyed) (name : String) (field : Field) :
    (s.setField name field).Keyed := by
  cases field with
  | recipe path text =>
    unfold Sheet.setField
    dsimp only
    split
    case isTrue =>
      refine ⟨h.fold_swatch, fun key m hm => ?_⟩
      rw [NameTable.get?_modify] at hm
      split at hm
      case isTrue =>
        -- the recipe changes, and the name stays
        obtain ⟨old, hold, rfl⟩ := Option.map_eq_some_iff.1 hm
        exact h.fold_map key old hold
      case isFalse => exact h.fold_map key m hm
    case isFalse =>
      refine ⟨h.fold_swatch, fun key m hm => ?_⟩
      rw [NameTable.get?_insert] at hm
      split at hm
      case isTrue hkey =>
        cases hm
        exact hkey
      case isFalse => exact h.fold_map key m hm
  | use place allowed => exact ⟨h.fold_swatch, h.fold_map⟩
  | unknown name => exact h

theorem Keyed.add (h : s.Keyed) (entry : Entry) : (s.add entry).Keyed := by
  cases entry with
  | swatch name c =>
    refine ⟨fun key w hw => ?_, h.fold_map⟩
    unfold Sheet.add at hw
    rw [NameTable.get?_insert] at hw
    split at hw
    case isTrue hkey =>
      cases hw
      exact hkey
    case isFalse => exact h.fold_swatch key w hw
  | map name field => exact (h.mention name).setField name field
  | blank => exact h
  | badSwatch value => exact h
  | unknown key => exact h

theorem Keyed.foldl_add (h : s.Keyed) (entries : List Entry) :
    (entries.foldl Sheet.add s).Keyed := by
  induction entries generalizing s with
  | nil => exact h
  | cons entry entries ih => exact ih (h.add entry)

theorem keyed_of_read {text : String} (h : Sheet.read text = .ok s) : s.Keyed := by
  unfold Sheet.read at h
  cases hentries : readEntries text with
  | error fault => rw [hentries] at h; cases h
  | ok entries =>
    rw [hentries] at h
    cases h
    exact keyed_empty.foldl_add entries

/-! ## Sheets that answer alike -/

/-- Tables of things under their folded names are told by looking names up. -/
theorem table_ext {α : Type} {tab tab' : NameTable α} {name : α → String}
    (hname : ∀ key v, tab.get? key = some v → Text.fold (name v) = key)
    (hname' : ∀ key v, tab'.get? key = some v → Text.fold (name v) = key)
    (h : ∀ q, tab.get? (Text.fold q) = tab'.get? (Text.fold q)) : tab = tab' := by
  refine NameTable.ext_get? fun key => ?_
  cases hv : tab.get? key with
  | some v =>
    have hlook := h (name v)
    rw [hname key v hv, hv] at hlook
    exact hlook
  | none =>
    cases hv' : tab'.get? key with
    | none => rfl
    | some v =>
      have hlook := h (name v)
      rw [hname' key v hv', hv, hv'] at hlook
      cases hlook

/-- Two sheets are the same if they answer alike to all names and have the same uses. -/
theorem eq_of_lookups (hkeyed : s.Keyed) (hkeyed' : s'.Keyed)
    (hcolour : ∀ q, s'.colour? q = s.colour? q) (hmap : ∀ q, s'.map? q = s.map? q)
    (huses : ∀ key, s'.uses.get? key = s.uses.get? key) : s' = s := by
  have hcolours : s'.colours = s.colours :=
    table_ext hkeyed'.fold_swatch hkeyed.fold_swatch hcolour
  have hmaps : s'.maps = s.maps := table_ext hkeyed'.fold_map hkeyed.fold_map hmap
  have huses' : s'.uses = s.uses := NameTable.ext_get? huses
  obtain ⟨colours, maps, uses⟩ := s
  obtain ⟨colours', maps', uses'⟩ := s'
  cases hcolours
  cases hmaps
  cases huses'
  rfl

end Sheet

end Colourway
