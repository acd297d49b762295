/-
  A character between quotation marks can be read again: an escape stands for one character only
  (`unescape_escape`), so two characters are never quoted alike (`quoteChar_injective`).
-/
import Colourway.Text.Quoted
import Mathlib.Data.String.Basic

namespace Colourway

namespace Hexadecimal

/-- The number that digits stand for. -/
def read (digits : List Char) : ℕ := digits.foldl (fun n c => 16 * n + (value? c).getD 0) 0

theorem read_concat (digits : List Char) (c : Char) :
    read (digits ++ [c]) = 16 * read digits + (value? c).getD 0 := by
  rw [read, List.foldl_append]
  rfl

theorem read_write (n : ℕ) : read (write n) = n := by
  fun_induction write n with
  | case1 n h =>
    rw [← List.nil_append [digit n], read_concat, value?_digit h]
    exact Nat.zero_add n
  | case2 n h ih =>
    rw [read_concat, ih, value?_digit (Nat.mod_lt n (by decide))]
    exact Nat.div_add_mod n 16

end Hexadecimal

namespace Text

/-- The character that an escape stands for, told from what follows the backslash. -/
def escaped : List Char → Char
  | [] => default
  | [c] =>
    if c = '0' then Char.ofNat 0 else if c = 't' then '\t' else if c = 'r' then '\r'
    else if c = 'n' then '\n' else c
  | _ :: _ :: digits => Char.ofNat (Hexadecimal.read digits.dropLast)

/-- The character that is written between two marks. -/
def unescape : List Char → Char
  | [] => default
  | c :: rest => if c = '\\' then escaped rest else c

theorem unescape_backslash (rest : List Char) : unescape ('\\' :: rest) = escaped rest := by
  rw [unescape, if_pos rfl]

/-- A mark is not one of the letters that escapes are written with. -/
theorem unescape_escape {mark : Char} (hmark : mark ∉ ['0', 't', 'r', 'n']) (c : Char) :
    unescape (escape mark c) = c := by
  unfold escape
  simp only [Bool.or_eq_true, decide_eq_true_eq]
  split_ifs with hzero htab hreturn hline hslash hshown
  · exact hzero.symm
  · exact htab.symm
  · exact hreturn.symm
  · exact hline.symm
  · have hc : c ∉ ['0', 't', 'r', 'n'] := by
      rcases hslash with rfl | rfl
      · decide
      · exact hmark
    simp only [List.mem_cons, List.not_mem_nil, or_false, not_or] at hc
    obtain ⟨h0, ht, hr, hn⟩ := hc
    rw [unescape_backslash, escaped, if_neg h0, if_neg ht, if_neg hr, if_neg hn]
  · rw [List.append_assoc, List.cons_append, unescape_backslash, List.cons_append,
      List.cons_append, List.nil_append, escaped, List.dropLast_concat, Hexadecimal.read_write,
      Char.ofNat_toNat]
  · rw [unescape, if_neg (not_or.1 hslash).1]

theorem quoteChar_injective : Function.Injective quoteChar := by
  intro c d h
  have hmark : singleMark ∉ ['0', 't', 'r', 'n'] := by decide
  have hescape : escape singleMark c = escape singleMark d :=
    List.append_cancel_left (List.append_cancel_right (String.ofList_injective h))
  rw [← unescape_escape hmark c, hescape, unescape_escape hmark d]

end Text

end Colourway
