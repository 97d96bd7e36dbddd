import Lila.Scope.Arena

/-!
# What happens to the scopes of a program
-/

namespace Lila.Scope

/-- A scope is entered or left, with the stack of open scopes at that moment, it
included; or a name is bound in the innermost scope, with whether that replaces
a binding. -/
inductive Event where
  | entered (stack : List Open)
  | left (stack : List Open)
  | bound (name : String) (replaces : Bool)
deriving DecidableEq

end Lila.Scope
