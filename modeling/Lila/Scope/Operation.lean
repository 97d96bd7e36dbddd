import Lila.Scope.Chain

/-!
# Runs of scope operations

The operations on a chain as data, with what each answers, so that a sequence of
them can be run and compared.
-/

namespace Lila.Scope

inductive Operation (α : Type) where
  | push (name : String)
  | pop
  | define (name : String) (value : α)
  | lookup (name : String)
  | isDefinedHere (name : String)
deriving DecidableEq

inductive Answer (α : Type) where
  | done
  | value (value : Option α)
  | flag (flag : Bool)
deriving DecidableEq

structure Step (α : Type) where
  answer : Answer α
  depth : Nat
  path : String
deriving DecidableEq

namespace Chain

variable {α : Type}

/-- Carries an operation out. A definition answers with the value it replaces. -/
def apply (c : Chain α) : Operation α → Answer α × Chain α
  | .push name => (.done, c.push name)
  | .pop => (.done, c.pop)
  | .define name value => (.value (c.here? name), c.define name value)
  | .lookup name => (.value (c.lookup name), c)
  | .isDefinedHere name => (.flag (c.isDefinedHere name), c)

def run (c : Chain α) : List (Operation α) → List (Step α)
  | [] => []
  | op :: ops =>
      let (answer, c) := c.apply op
      ⟨answer, c.depth, c.path⟩ :: run c ops

end Chain

end Lila.Scope
