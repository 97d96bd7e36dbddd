import Lila.Text.Blank

/-!
# Lines of a text
-/

namespace Lila.Text

def dropReturn : List Char → List Char
  | '\r' :: line => line
  | line => line

/-- The lines of a text, `line` being the reversed start of the first one. -/
def linesFrom : List Char → List Char → List (List Char)
  | [], [] => []
  | line, [] => [line.reverse]
  | line, c :: text =>
      if c = '\n' then (dropReturn line).reverse :: linesFrom [] text
      else linesFrom (c :: line) text

/-- The pieces that the line breaks of a text end, and the piece behind the last
line break if it is not empty. A carriage return right before a line break is
part of the break. -/
def lines (text : List Char) : List (List Char) := linesFrom [] text

def unlines (lines : List (List Char)) : List Char := ['\n'].intercalate lines

end Lila.Text
