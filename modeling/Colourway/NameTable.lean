/-
  Tables of named things, kept in the order of their names. Names compare by their
  characters' code points, which is also the order of their UTF-8 bytes. Each name stands
  in a table at most once; inserting under a name that is there replaces what it held.

  `get?_insert` is the law of look-up after insertion, from which those of the other changes
  follow, and `ext_get?` says that a table is nothing more than its look-ups.
-/

namespace Colourway

/-- Things of type `α` by name, listed in strictly increasing order of names. -/
structure NameTable (α : Type) where
  entries : List (String × α)
  sorted : entries.Pairwise (·.1 < ·.1)

namespace NameTable

variable {α : Type}

/-- The table that names nothing. -/
def empty : NameTable α := ⟨[], .nil⟩

instance : Inhabited (NameTable α) := ⟨empty⟩

/-- Looks a name up in a list of entries. -/
def find? (name : String) : List (String × α) → Option α
  | [] => none
  | e :: es => if e.1 = name then some e.2 else find? name es

/-- Puts an entry in its place, over the entry of the same name if there is one. -/
def place (name : String) (value : α) : List (String × α) → List (String × α)
  | [] => [(name, value)]
  | e :: es =>
    if name < e.1 then (name, value) :: e :: es
    else if name = e.1 then (name, value) :: es
    else e :: place name value es

theorem mem_place {name : String} {value : α} {x : String × α} {es : List (String × α)}
    (h : x ∈ place name value es) : x = (name, value) ∨ x ∈ es := by
  induction es with
  | nil => simpa [place] using h
  | cons e es ih =>
    rw [place] at h
    split at h
    · simpa using h
    · split at h
      · rcases List.mem_cons.1 h with h | h
        · exact .inl h
        · exact .inr (List.mem_cons_of_mem _ h)
      · rcases List.mem_cons.1 h with h | h
        · exact .inr (h ▸ List.mem_cons_self)
        · rcases ih h with h | h
          · exact .inl h
          · exact .inr (List.mem_cons_of_mem _ h)

theorem sorted_place (name : String) (value : α) {es : List (String × α)}
    (h : es.Pairwise (·.1 < ·.1)) : (place name value es).Pairwise (·.1 < ·.1) := by
  induction es with
  | nil => simp [place]
  | cons e es ih =>
    rw [List.pairwise_cons] at h
    rw [place]
    split
    case isTrue hlt =>
      refine List.pairwise_cons.2 ⟨fun x hx => ?_, List.pairwise_cons.2 h⟩
      rcases List.mem_cons.1 hx with hx | hx
      · exact hx ▸ hlt
      · exact String.lt_trans hlt (h.1 x hx)
    case isFalse hlt =>
      split
      case isTrue heq => exact List.pairwise_cons.2 ⟨fun x hx => heq ▸ h.1 x hx, h.2⟩
      case isFalse hne =>
        refine List.pairwise_cons.2 ⟨fun x hx => ?_, ih h.2⟩
        rcases mem_place hx with hx | hx
        · exact hx ▸ Std.lt_of_le_of_ne (String.not_lt.1 hlt) (Ne.symm hne)
        · exact h.1 x hx

/-- What stands under a name. -/
def get? (t : NameTable α) (name : String) : Option α := find? name t.entries

/-- The table with one thing put under a name. -/
def insert (t : NameTable α) (name : String) (value : α) : NameTable α :=
  ⟨place name value t.entries, sorted_place name value t.sorted⟩

/-- The table with a thing put under a name that held nothing. -/
def insertNew (t : NameTable α) (name : String) (value : α) : NameTable α :=
  if (t.get? name).isSome then t else t.insert name value

/-- The table with what stands under a name changed. -/
def modify (t : NameTable α) (name : String) (f : α → α) : NameTable α :=
  match t.get? name with
  | some value => t.insert name (f value)
  | none => t

/-- The names, in order. -/
def names (t : NameTable α) : List String := t.entries.map (·.1)

/-- The things, in the order of their names. -/
def values (t : NameTable α) : List α := t.entries.map (·.2)

/-- How many names there are. -/
def size (t : NameTable α) : Nat := t.entries.length

theorem find?_place (name other : String) (value : α) (es : List (String × α)) :
    find? other (place name value es) = if name = other then some value else find? other es := by
  induction es with
  | nil => simp [place, find?]
  | cons e es ih =>
    rw [place]
    split
    · simp [find?]
    · split
      case isTrue heq =>
        subst heq
        simp only [find?]
        split <;> rfl
      case isFalse hne =>
        simp only [find?, ih]
        by_cases he : e.1 = other
        · subst he; simp [hne]
        · simp [he]

@[simp] theorem get?_empty (name : String) : (empty : NameTable α).get? name = none := rfl

theorem get?_insert (t : NameTable α) (name other : String) (value : α) :
    (t.insert name value).get? other = if name = other then some value else t.get? other :=
  find?_place name other value t.entries

theorem get?_insertNew (t : NameTable α) (name other : String) (value : α) :
    (t.insertNew name value).get? other =
      if name = other then some ((t.get? other).getD value) else t.get? other := by
  unfold insertNew
  split
  case isTrue h =>
    obtain ⟨v, hv⟩ := Option.isSome_iff_exists.1 h
    split
    case isTrue heq => rw [← heq, hv]; rfl
    case isFalse => rfl
  case isFalse h =>
    rw [get?_insert]
    split
    case isTrue heq => rw [← heq, Option.not_isSome_iff_eq_none.1 h]; rfl
    case isFalse => rfl

theorem get?_modify (t : NameTable α) (name other : String) (f : α → α) :
    (t.modify name f).get? other =
      if name = other then (t.get? other).map f else t.get? other := by
  unfold modify
  split
  case h_1 v hv =>
    rw [get?_insert]
    split
    case isTrue heq => rw [← heq, hv]; rfl
    case isFalse => rfl
  case h_2 hv =>
    split
    case isTrue heq => rw [← heq, hv]; rfl
    case isFalse => rfl

theorem find?_eq_some_iff {name : String} {value : α} {es : List (String × α)}
    (h : es.Pairwise (·.1 < ·.1)) : find? name es = some value ↔ (name, value) ∈ es := by
  induction es with
  | nil => simp [find?]
  | cons e es ih =>
    rw [List.pairwise_cons] at h
    simp only [find?, List.mem_cons]
    split
    case isTrue heq =>
      subst heq
      constructor
      · intro hv; exact .inl (by cases hv; rfl)
      · rintro (hv | hv)
        · rw [← hv]
        · exact absurd (h.1 _ hv) (String.lt_irrefl _)
    case isFalse hne =>
      rw [ih h.2]
      constructor
      · exact .inr
      · rintro (hv | hv)
        · exact absurd (by rw [← hv]) hne
        · exact hv

theorem get?_eq_some_iff {t : NameTable α} {name : String} {value : α} :
    t.get? name = some value ↔ (name, value) ∈ t.entries :=
  find?_eq_some_iff t.sorted

theorem get?_eq_none_iff {t : NameTable α} {name : String} :
    t.get? name = none ↔ name ∉ t.names := by
  rw [Option.eq_none_iff_forall_ne_some, names, List.mem_map]
  constructor
  · rintro h ⟨e, he, rfl⟩
    exact h e.2 (get?_eq_some_iff.2 he)
  · intro h value hvalue
    exact h ⟨(name, value), get?_eq_some_iff.1 hvalue, rfl⟩

theorem pairwise_names (t : NameTable α) : t.names.Pairwise (· < ·) :=
  List.pairwise_map.2 t.sorted

/-- Sorted lists with the same members are the same list. -/
theorem eq_of_sorted {l₁ l₂ : List (String × α)} (h₁ : l₁.Pairwise (·.1 < ·.1))
    (h₂ : l₂.Pairwise (·.1 < ·.1)) (h : ∀ x, x ∈ l₁ ↔ x ∈ l₂) : l₁ = l₂ := by
  induction l₁ generalizing l₂ with
  | nil =>
    cases l₂ with
    | nil => rfl
    | cons e es => exact absurd ((h e).2 List.mem_cons_self) (by simp)
  | cons a as ih =>
    cases l₂ with
    | nil => exact absurd ((h a).1 List.mem_cons_self) (by simp)
    | cons b bs =>
      rw [List.pairwise_cons] at h₁ h₂
      have hab : a = b := by
        rcases List.mem_cons.1 ((h a).1 List.mem_cons_self) with hb | hb
        · exact hb
        · rcases List.mem_cons.1 ((h b).2 List.mem_cons_self) with ha | ha
          · exact ha.symm
          · exact absurd (h₂.1 a hb) (String.lt_asymm (h₁.1 b ha))
      subst hab
      congr 1
      refine ih h₁.2 h₂.2 fun x => ⟨fun hx => ?_, fun hx => ?_⟩
      · rcases List.mem_cons.1 ((h x).1 (List.mem_cons_of_mem _ hx)) with hxa | hxb
        · exact absurd (h₁.1 x hx) (hxa ▸ String.lt_irrefl _)
        · exact hxb
      · rcases List.mem_cons.1 ((h x).2 (List.mem_cons_of_mem _ hx)) with hxa | hxb
        · exact absurd (h₂.1 x hx) (hxa ▸ String.lt_irrefl _)
        · exact hxb

@[ext] theorem ext_get? {s t : NameTable α} (h : ∀ name, s.get? name = t.get? name) : s = t := by
  cases s with
  | mk es hs =>
    cases t with
    | mk fs ht =>
      congr 1
      refine eq_of_sorted hs ht fun x => ?_
      have hx : find? x.1 es = find? x.1 fs := h x.1
      rw [← find?_eq_some_iff hs, ← find?_eq_some_iff ht, hx]

end NameTable

end Colourway
