/-
  The lines of a text. A line feed ends a line, and a carriage return right before it belongs
  to the line end; a carriage return anywhere else belongs to its line. What follows the last
  line feed is a line only if there is something.
-/

namespace Colourway.Text

/-- The line without a carriage return at its end. -/
def dropReturn (line : List Char) : List Char :=
  match line.reverse with
  | '\r' :: rest => rest.reverse
  | _ => line

/-- The lines of a text; `line` holds what was read of the current one, latest first. -/
def linesAfter (line : List Char) : List Char → List (List Char)
  | [] => if line.isEmpty then [] else [line.reverse]
  | '\n' :: rest => dropReturn line.reverse :: linesAfter [] rest
  | c :: rest => linesAfter (c :: line) rest

/-- The lines of a text, without their ends. -/
def lines (text : List Char) : List (List Char) := linesAfter [] text

end Colourway.Text
