import Lila.Number.Fixed
import Lila.Tree.Basic

/-!
# Printing trees

Operations are put in parentheses, so that the text shows the grouping. The
elements of a block stand on lines of their own, two spaces further in than the
block's depth asks of its closing brace.
-/

namespace Lila.Tree

def indent (depth : Nat) : String := String.ofList (List.replicate (2 * depth) ' ')

/-- A name with a list in parentheses, or alone if the list is empty. -/
def applied (name : String) : List String → String
  | [] => name
  | items => name ++ "(" ++ ", ".intercalate items ++ ")"

mutual

def display : Tree → String
  | .number x => x.display
  | .binary op lhs rhs => "(" ++ lhs.display ++ " " ++ op ++ " " ++ rhs.display ++ ")"
  | .call name args => applied name (displayAll args)
  | .value name expr => "val " ++ name ++ " = " ++ expr.display
  | .definition name params body => "def " ++ applied name params ++ " = " ++ body.display
  | .block depth body =>
      "\x7b\n" ++ displayLines (indent (depth + 1)) body ++ indent depth ++ "\x7d"

def displayAll : List Tree → List String
  | [] => []
  | tree :: trees => tree.display :: displayAll trees

def displayLines (indentation : String) : List Tree → String
  | [] => ""
  | tree :: trees => indentation ++ tree.display ++ "\n" ++ displayLines indentation trees

end

end Lila.Tree
