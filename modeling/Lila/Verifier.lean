import Lila.Text.Lines

/-!
# Messages of the module verifier

A message reports each block that lacks its terminator in two lines: a header
that names the function, and the label of the block. While a function is under
construction the functions around it are unfinished as well, so the reports on
other functions are left out. Other lines are kept.
-/

namespace Lila.Verifier

def blockHeader : List Char := "Basic Block in function '".toList

def headerOf (function : String) : List Char := blockHeader ++ function.toList ++ "' ".toList

def isForeign (function : String) (line : List Char) : Bool :=
  blockHeader.isPrefixOf line && !(headerOf function).isPrefixOf line

/-- Drops the headers of reports on other functions, and the line behind each. -/
def dropForeign (function : String) : List (List Char) → List (List Char)
  | [] => []
  | [line] => if isForeign function line then [] else [line]
  | line :: label :: lines =>
      if isForeign function line then dropForeign function lines
      else line :: dropForeign function (label :: lines)

/-- The part of a message that is not about other functions, or all of it if
that part is blank, without the white space at its end. -/
def ownFailures (message function : String) : String :=
  let kept := Text.unlines (dropForeign function (Text.lines message.toList))
  String.ofList (Text.trimEnd (if kept.all Text.isBlank then message.toList else kept))

end Lila.Verifier
