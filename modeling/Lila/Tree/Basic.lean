import Lila.Number.Double

/-!
# Trees

A tree is what a program means to the later stages: numbers, operations, calls
(a name without arguments is a call too), bindings of values and definitions,
and blocks. Blocks carry the number of blocks around them in the source.
-/

namespace Lila

inductive Tree where
  | number (value : Double)
  | binary (op : String) (lhs rhs : Tree)
  | call (name : String) (args : List Tree)
  | value (name : String) (expr : Tree)
  | definition (name : String) (params : List String) (body : Tree)
  | block (depth : Nat) (body : List Tree)

namespace Tree

/-- Everything but a binding of a value or a definition has a value itself. -/
def isExpr : Tree → Bool
  | .value .. | .definition .. => false
  | _ => true

/-! ## Equality -/

mutual

def decEq : (s t : Tree) → Decidable (s = t)
  | .number x, .number y =>
      decidable_of_iff (x = y) (by simp)
  | .binary o a b, .binary o' a' b' =>
      match decEq a a', decEq b b' with
      | isTrue ha, isTrue hb => decidable_of_iff (o = o') (by simp [ha, hb])
      | isFalse ha, _ => isFalse (by simp [ha])
      | _, isFalse hb => isFalse (by simp [hb])
  | .call n as, .call n' as' =>
      match decEqAll as as' with
      | isTrue h => decidable_of_iff (n = n') (by simp [h])
      | isFalse h => isFalse (by simp [h])
  | .value n e, .value n' e' =>
      match decEq e e' with
      | isTrue h => decidable_of_iff (n = n') (by simp [h])
      | isFalse h => isFalse (by simp [h])
  | .definition n ps e, .definition n' ps' e' =>
      match decEq e e' with
      | isTrue h => decidable_of_iff (n = n' ∧ ps = ps') (by simp [h])
      | isFalse h => isFalse (by simp [h])
  | .block d b, .block d' b' =>
      match decEqAll b b' with
      | isTrue h => decidable_of_iff (d = d') (by simp [h])
      | isFalse h => isFalse (by simp [h])
  | .number _, .binary .. | .number _, .call .. | .number _, .value .. | .number _, .definition ..
  | .number _, .block .. | .binary .., .number _ | .binary .., .call .. | .binary .., .value ..
  | .binary .., .definition .. | .binary .., .block .. | .call .., .number _ | .call .., .binary ..
  | .call .., .value .. | .call .., .definition .. | .call .., .block .. | .value .., .number _
  | .value .., .binary .. | .value .., .call .. | .value .., .definition .. | .value .., .block ..
  | .definition .., .number _ | .definition .., .binary .. | .definition .., .call ..
  | .definition .., .value .. | .definition .., .block .. | .block .., .number _
  | .block .., .binary .. | .block .., .call .. | .block .., .value ..
  | .block .., .definition .. => isFalse (by simp)

def decEqAll : (ss ts : List Tree) → Decidable (ss = ts)
  | [], [] => isTrue rfl
  | [], _ :: _ => isFalse (by simp)
  | _ :: _, [] => isFalse (by simp)
  | s :: ss, t :: ts =>
      match decEq s t, decEqAll ss ts with
      | isTrue h, isTrue hs => isTrue (by simp [h, hs])
      | isFalse h, _ => isFalse (by simp [h])
      | _, isFalse hs => isFalse (by simp [hs])

end

instance : DecidableEq Tree := decEq

end Tree

end Lila
