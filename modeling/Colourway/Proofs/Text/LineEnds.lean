/-
  The ends of lines and of texts. White space at the end of a line goes when the line is
  trimmed. A line put behind a text is the last line of the whole, and the lines before it are
  those of the text, but for a carriage return at the very end of the text: as soon as a line
  feed follows, it belongs to the line end (`lines_appendLine`). Where such a carriage return does
  not count, a line put between two parts of a text is one more between theirs
  (`map_lines_insertLine`).
-/
import Mathlib
import Colourway.Text.Blank
import Colourway.Text.Lines
import Colourway.Text.Split

namespace Colourway.Text

/-! ## White space at the ends of a text -/

theorem trimStart_append (a b : List Char) :
    trimStart (a ++ b) = if (trimStart a).isEmpty then trimStart b else trimStart a ++ b :=
  List.dropWhile_append

theorem trimEnd_append (a b : List Char) :
    trimEnd (a ++ b) = if (trimEnd b).isEmpty then trimEnd a else a ++ trimEnd b := by
  unfold trimEnd
  rw [List.reverse_append, List.dropWhile_append, List.isEmpty_reverse]
  split
  · rfl
  · rw [List.reverse_append, List.reverse_reverse]

/-- White space around a text does not count. -/
theorem trim_append_of_isBlank {left right : List Char} (hleft : ∀ c ∈ left, isBlank c = true)
    (hright : ∀ c ∈ right, isBlank c = true) (text : List Char) :
    trim (left ++ (text ++ right)) = trim text := by
  have hstart : trimStart (left ++ (text ++ right)) = trimStart (text ++ right) :=
    List.dropWhile_append_of_pos hleft
  rw [trim, trim, hstart, trimStart_append]
  split
  case isTrue hnil =>
    rw [List.isEmpty_iff.1 hnil, trimStart_eq_nil_iff.2 hright]
  case isFalse =>
    rw [trimEnd_append, trimEnd_eq_nil_iff.2 hright, List.isEmpty_nil, if_pos rfl]

theorem trim_concat_of_isBlank {c : Char} (hc : isBlank c = true) (text : List Char) :
    trim (text ++ [c]) = trim text :=
  trim_append_of_isBlank (fun d (h : d ∈ []) => nomatch h)
    (fun _ h => List.mem_singleton.1 h ▸ hc) text

theorem trim_eq_self {text : List Char} (h : ∀ c ∈ text, isBlank c = false) :
    trim text = text := by
  have hstart : ∀ t : List Char, (∀ c ∈ t, isBlank c = false) → t.dropWhile isBlank = t := by
    intro t ht
    refine List.dropWhile_eq_self_iff.2 fun hl => ?_
    rw [ht _ (List.getElem_mem hl)]
    exact Bool.false_ne_true
  rw [trim, trimStart, hstart text h, trimEnd,
    hstart text.reverse fun c hc => h c (List.mem_reverse.1 hc), List.reverse_reverse]

/-- Nothing is trimmed between two parts that keep their own ends. -/
theorem trim_append_append {a b c : List Char} (ha : trimStart a = a) (hane : a ≠ [])
    (hc : trimEnd c = c) (hcne : c ≠ []) : trim (a ++ (b ++ c)) = a ++ (b ++ c) := by
  have hstart : trimStart (a ++ (b ++ c)) = a ++ (b ++ c) := by
    rw [trimStart_append, ha, if_neg (mt List.isEmpty_iff.1 hane)]
  rw [trim, hstart, ← List.append_assoc, trimEnd_append, hc, if_neg (mt List.isEmpty_iff.1 hcne)]

theorem cutAt?_concat {sep c : Char} (h : c ≠ sep) (text : List Char) :
    cutAt? sep (text ++ [c]) = (cutAt? sep text).map fun sides => (sides.1, sides.2 ++ [c]) := by
  induction text with
  | nil => simp [cutAt?, h]
  | cons d text ih =>
    rw [List.cons_append, cutAt?, cutAt?, ih]
    split
    · rfl
    · rw [Option.map_map, Option.map_map]
      rfl

/-! ## Lines of a longer text -/

theorem dropReturn_eq_or (line : List Char) :
    dropReturn line = line ∨ line = dropReturn line ++ ['\r'] := by
  unfold dropReturn
  split
  case h_1 rest hreverse => exact .inr (by rw [← List.reverse_reverse line, hreverse]; simp)
  case h_2 => exact .inl rfl

/-- Where a carriage return at the end of a line does not count, dropping it does not. -/
theorem apply_dropReturn {β : Type} {f : List Char → β} (h : ∀ line, f (line ++ ['\r']) = f line)
    (line : List Char) : f (dropReturn line) = f line := by
  rcases dropReturn_eq_or line with heq | heq
  · rw [heq]
  · conv_rhs => rw [heq, h]

theorem linesAfter_cons_of_ne {c : Char} (h : c ≠ '\n') (line text : List Char) :
    linesAfter line (c :: text) = linesAfter (c :: line) text := linesAfter.eq_3 line c text h

theorem linesAfter_of_not_mem {text : List Char} (h : '\n' ∉ text) (line : List Char) :
    linesAfter line text = linesAfter (text.reverse ++ line) [] := by
  induction text generalizing line with
  | nil => rfl
  | cons c text ih =>
    rw [List.mem_cons, not_or] at h
    rw [linesAfter_cons_of_ne (Ne.symm h.1), ih h.2, List.reverse_cons, List.append_assoc,
      List.singleton_append]

theorem lines_of_not_mem {text : List Char} (h : '\n' ∉ text) (hne : text ≠ []) :
    lines text = [text] := by
  have hreverse : ¬text.reverse.isEmpty := by rwa [List.isEmpty_reverse, List.isEmpty_iff]
  rw [lines, linesAfter_of_not_mem h, List.append_nil, linesAfter, if_neg hreverse,
    List.reverse_reverse]

/-- What follows a line feed is cut into lines on its own. -/
theorem linesAfter_append (line text rest : List Char) :
    linesAfter line (text ++ '\n' :: rest) = linesAfter line (text ++ ['\n']) ++ lines rest := by
  induction text generalizing line with
  | nil => rfl
  | cons c text ih =>
    by_cases hc : c = '\n'
    · rw [hc, List.cons_append, List.cons_append, linesAfter, linesAfter, ih, List.cons_append]
    · rw [List.cons_append, List.cons_append, linesAfter_cons_of_ne hc, linesAfter_cons_of_ne hc,
        ih]

/-- The last line without a line feed is the same with one, but for a carriage return. -/
theorem exists_linesAfter_concat (line : List Char) {text : List Char}
    (hne : line ≠ [] ∨ text ≠ []) (hlast : '\n' ∉ text.getLast?) :
    ∃ before last, linesAfter line text = before ++ [last] ∧
      linesAfter line (text ++ ['\n']) = before ++ [dropReturn last] := by
  induction text generalizing line with
  | nil =>
    have hline : ¬line.isEmpty := by
      rw [List.isEmpty_iff]
      exact hne.resolve_right fun h => h rfl
    exact ⟨[], line.reverse, by rw [linesAfter, if_neg hline]; rfl, rfl⟩
  | cons c text ih =>
    have hlast' : '\n' ∉ text.getLast? := by
      cases text with
      | nil => exact fun h => nomatch h
      | cons => rwa [List.getLast?_cons_cons] at hlast
    by_cases hc : c = '\n'
    · have htext : text ≠ [] := by
        rintro rfl
        exact hlast (by rw [hc]; rfl)
      obtain ⟨before, last, hlines, hmore⟩ := ih [] (.inr htext) hlast'
      refine ⟨dropReturn line.reverse :: before, last, ?_, ?_⟩
      · rw [hc, linesAfter, hlines, List.cons_append]
      · rw [hc, List.cons_append, linesAfter, hmore, List.cons_append]
    · obtain ⟨before, last, hlines, hmore⟩ := ih (c :: line) (.inl (List.cons_ne_nil c line)) hlast'
      refine ⟨before, last, ?_, ?_⟩
      · rw [linesAfter_cons_of_ne hc, hlines]
      · rw [List.cons_append, linesAfter_cons_of_ne hc, hmore]

/-! ## A line behind a text -/

/-- The text with one more line. A text that does not end in a line feed gets one first. -/
def appendLine (text line : List Char) : List Char :=
  if text.getLast?.all (· = '\n') then text ++ line else text ++ '\n' :: line

theorem lines_appendLine {line : List Char} (h : '\n' ∉ line) (hne : line ≠ [])
    (text : List Char) :
    lines (appendLine text line) = lines text ++ [line] ∨
      ∃ before last, lines text = before ++ [last] ∧
        lines (appendLine text line) = before ++ [dropReturn last] ++ [line] := by
  unfold appendLine
  split
  case isTrue hend =>
    refine .inl ?_
    rcases List.eq_nil_or_concat' text with rfl | ⟨start, c, rfl⟩
    · exact lines_of_not_mem h hne
    · rw [List.getLast?_concat] at hend
      have hc : c = '\n' := by simpa using hend
      rw [hc, List.append_assoc, List.singleton_append, lines, linesAfter_append,
        lines_of_not_mem h hne]
      rfl
  case isFalse hend =>
    have htext : text ≠ [] := by
      rintro rfl
      exact hend rfl
    have hlast : '\n' ∉ text.getLast? := by
      intro hmem
      rw [Option.mem_def.1 hmem] at hend
      exact hend rfl
    obtain ⟨before, last, hlines, hmore⟩ := exists_linesAfter_concat [] (.inr htext) hlast
    refine .inr ⟨before, last, hlines, ?_⟩
    rw [lines, linesAfter_append, hmore, lines_of_not_mem h hne]

/-! ## A line between two parts of a text -/

/-- No line runs on from the one part to the other. -/
def LinesMeet (before after : List Char) : Prop :=
  after = [] ∨ before.getLast?.all (· = '\n') = true

/-- Two parts of a text with a line between them. -/
def insertLine (before line after : List Char) : List Char :=
  appendLine before line ++ '\n' :: after

theorem lines_append {before after : List Char} (h : LinesMeet before after) :
    lines (before ++ after) = lines before ++ lines after := by
  rcases h with rfl | hend
  · rw [List.append_nil]
    exact (List.append_nil _).symm
  · rcases List.eq_nil_or_concat' before with rfl | ⟨start, c, rfl⟩
    · rfl
    · rw [List.getLast?_concat] at hend
      have hc : c = '\n' := by simpa using hend
      rw [hc, List.append_assoc, List.singleton_append, lines, linesAfter_append]
      rfl

variable {β : Type} {f : List Char → β} {line : List Char}

theorem map_lines_appendLine (hf : ∀ l, f (dropReturn l) = f l) (hline : '\n' ∉ line)
    (hne : line ≠ []) (text : List Char) :
    (lines (appendLine text line)).map f = (lines text).map f ++ [f line] := by
  rcases lines_appendLine hline hne text with hlines | ⟨before, last, hold, hnew⟩
  · rw [hlines, List.map_append, List.map_singleton]
  · rw [hold, hnew, List.map_append, List.map_append, List.map_append, List.map_singleton,
      List.map_singleton, List.map_singleton, hf]

theorem getLast?_appendLine (hne : line ≠ []) (text : List Char) :
    (appendLine text line).getLast? = line.getLast? := by
  unfold appendLine
  split
  · exact List.getLast?_append_of_ne_nil _ hne
  · rw [List.getLast?_append_of_ne_nil _ (List.cons_ne_nil _ _), List.getLast?_cons]
    cases line with
    | nil => exact absurd rfl hne
    | cons c line => rw [List.getLast?_cons]; rfl

theorem map_lines_insertLine (hf : ∀ l, f (dropReturn l) = f l) (hline : '\n' ∉ line)
    (hne : line ≠ []) (before after : List Char) :
    (lines (insertLine before line after)).map f =
      (lines before).map f ++ f line :: (lines after).map f := by
  have hlast : '\n' ∉ (appendLine before line).getLast? := by
    rw [getLast?_appendLine hne]
    exact fun hmem => hline (List.mem_of_getLast? hmem)
  have hnil : appendLine before line ≠ [] := by
    rw [← List.getLast?_isSome, getLast?_appendLine hne, List.getLast?_isSome]
    exact hne
  obtain ⟨start, last, hlines, hmore⟩ := exists_linesAfter_concat [] (.inr hnil) hlast
  have happend : (lines (appendLine before line)).map f = (start ++ [last]).map f :=
    congrArg (List.map f) hlines
  rw [map_lines_appendLine hf hline hne] at happend
  rw [insertLine, lines, linesAfter_append, hmore, List.map_append, List.map_append,
    List.map_singleton, hf, ← List.map_singleton, ← List.map_append, ← happend, List.append_assoc,
    List.singleton_append]

end Colourway.Text
