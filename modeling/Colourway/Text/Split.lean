/-
  Cutting a text at a character: once, at the first place where it stands, or everywhere.
-/

namespace Colourway.Text

/-- The parts before and after the first `sep`. -/
def cutAt? (sep : Char) : List Char → Option (List Char × List Char)
  | [] => none
  | c :: text =>
    if c = sep then some ([], text)
    else (cutAt? sep text).map fun parts => (c :: parts.1, parts.2)

/-- The parts between the places where `sep` stands. There is one more part than places. -/
def segments (sep : Char) : List Char → List (List Char)
  | [] => [[]]
  | c :: text =>
    if c = sep then [] :: segments sep text
    else
      match segments sep text with
      | [] => [[c]]
      | part :: parts => (c :: part) :: parts

theorem eq_of_cutAt? {sep : Char} {text a b : List Char} (h : cutAt? sep text = some (a, b)) :
    text = a ++ sep :: b ∧ sep ∉ a := by
  induction text generalizing a with
  | nil => simp [cutAt?] at h
  | cons c text ih =>
    rw [cutAt?] at h
    split at h
    case isTrue heq => cases h; simp [heq]
    case isFalse hne =>
      obtain ⟨⟨x, y⟩, hxy, he⟩ := Option.map_eq_some_iff.1 h
      cases he
      obtain ⟨rfl, hm⟩ := ih hxy
      simp [hm, Ne.symm hne]

theorem cutAt?_append {sep : Char} {a b : List Char} (h : sep ∉ a) :
    cutAt? sep (a ++ sep :: b) = some (a, b) := by
  induction a with
  | nil => simp [cutAt?]
  | cons c a ih =>
    rw [List.mem_cons, not_or] at h
    simp [cutAt?, Ne.symm h.1, ih h.2]

theorem cutAt?_eq_none_iff {sep : Char} {text : List Char} :
    cutAt? sep text = none ↔ sep ∉ text := by
  induction text with
  | nil => simp [cutAt?]
  | cons c text ih =>
    rw [cutAt?, List.mem_cons, not_or]
    split
    case isTrue heq => simp [heq]
    case isFalse hne => simp [ih, Ne.symm hne]

theorem segments_ne_nil (sep : Char) (text : List Char) : segments sep text ≠ [] := by
  cases text with
  | nil => simp [segments]
  | cons c text =>
    rw [segments]
    split
    · simp
    · split <;> simp

/-- A part without the separator, followed by one, is the first segment. -/
theorem segments_append {sep : Char} {a : List Char} (b : List Char) (h : sep ∉ a) :
    segments sep (a ++ sep :: b) = a :: segments sep b := by
  induction a with
  | nil => simp [segments]
  | cons c a ih =>
    rw [List.mem_cons, not_or] at h
    simp [segments, Ne.symm h.1, ih h.2]

theorem segments_of_not_mem {sep : Char} {a : List Char} (h : sep ∉ a) :
    segments sep a = [a] := by
  induction a with
  | nil => rfl
  | cons c a ih =>
    rw [List.mem_cons, not_or] at h
    simp [segments, Ne.symm h.1, ih h.2]

end Colourway.Text
