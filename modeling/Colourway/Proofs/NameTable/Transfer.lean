/-
  Tables that are filled from another one. The things of a table carry names of their own, and what
  is left of each of them is put under its name into a new table. If every thing stands under its
  own name, the entries arrive in order, and each is put behind those before it
  (`entries_insertAll`): none is lost, and none replaces another (`entries_transfer`). So the new
  table answers with what is left of the old answer (`get?_transfer`).
-/
import Mathlib
import Colourway.NameTable

namespace Colourway

namespace NameTable

variable {α : Type}

/-- The table with some entries put into it, one after another. -/
def insertAll (t : NameTable α) (es : List (String × α)) : NameTable α :=
  es.foldl (fun t e => t.insert e.1 e.2) t

theorem place_of_forall_lt {name : String} {es : List (String × α)}
    (h : ∀ e ∈ es, e.1 < name) (value : α) : place name value es = es ++ [(name, value)] := by
  induction es with
  | nil => rfl
  | cons e es ih =>
    have he : e.1 < name := h e List.mem_cons_self
    rw [place, if_neg (String.lt_asymm he), if_neg (Ne.symm (String.ne_of_lt he)),
      ih fun d hd => h d (List.mem_cons_of_mem e hd)]
    rfl

/-- Entries in order stay as they are, and none replaces another. -/
theorem entries_insertAll {t : NameTable α} {es : List (String × α)}
    (h : (t.entries ++ es).Pairwise (·.1 < ·.1)) :
    (t.insertAll es).entries = t.entries ++ es := by
  induction es generalizing t with
  | nil => exact (List.append_nil _).symm
  | cons e es ih =>
    have hinsert : (t.insert e.1 e.2).entries = t.entries ++ [e] :=
      place_of_forall_lt (fun d hd =>
        (List.pairwise_append.1 h).2.2 d hd e List.mem_cons_self) e.2
    have hassoc : t.entries ++ e :: es = (t.insert e.1 e.2).entries ++ es := by
      rw [hinsert, List.append_assoc]
      rfl
    rw [hassoc] at h ⊢
    exact ih h

variable {β : Type}

/-- What is left of the things of a table under their own names, put into a new table. -/
def transfer (t : NameTable α) (name : α → String) (f : α → Option β) : NameTable β :=
  insertAll empty (t.values.filterMap fun v => (f v).map (name v, ·))

variable {t : NameTable α} {name : α → String}

theorem filterMap_values (h : ∀ key v, t.get? key = some v → name v = key) (f : α → Option β) :
    (t.values.filterMap fun v => (f v).map (name v, ·)) =
      t.entries.filterMap fun e => (f e.2).map (e.1, ·) := by
  rw [values, List.filterMap_map]
  refine List.filterMap_congr fun e he => ?_
  have hname : name e.2 = e.1 := h e.1 e.2 (get?_eq_some_iff.2 he)
  rw [Function.comp_apply, hname]

/-- Where each thing stands under its own name, the new table has what is left in the same
order: nothing is lost, and nothing is put in the place of another. -/
theorem entries_transfer (h : ∀ key v, t.get? key = some v → name v = key) (f : α → Option β) :
    (t.transfer name f).entries = t.values.filterMap fun v => (f v).map (name v, ·) := by
  refine entries_insertAll (t := empty) ?_
  rw [filterMap_values h]
  refine t.sorted.filterMap _ fun d e hde b hb c hc => ?_
  obtain ⟨-, -, rfl⟩ := Option.map_eq_some_iff.1 hb
  obtain ⟨-, -, rfl⟩ := Option.map_eq_some_iff.1 hc
  exact hde

theorem get?_transfer (h : ∀ key v, t.get? key = some v → name v = key) (f : α → Option β)
    (key : String) : (t.transfer name f).get? key = (t.get? key).bind f := by
  refine Option.ext fun b => ?_
  rw [get?_eq_some_iff, entries_transfer h, filterMap_values h, List.mem_filterMap,
    Option.bind_eq_some_iff]
  constructor
  · rintro ⟨e, he, hb⟩
    obtain ⟨b', hb', heq⟩ := Option.map_eq_some_iff.1 hb
    cases heq
    exact ⟨e.2, get?_eq_some_iff.2 he, hb'⟩
  · rintro ⟨v, hv, hb⟩
    exact ⟨(key, v), get?_eq_some_iff.1 hv, by rw [hb]; rfl⟩

end NameTable

end Colourway
