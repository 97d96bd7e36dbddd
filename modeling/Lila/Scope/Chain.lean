import Lila.Scope.Arena

/-!
# Chains of scopes

An arena with its invariant: scopes within scopes, around them all the scope
`global`. Inner bindings hide outer ones of the same name, and end with their
scope. The open scopes are kept at hand with their names, for those who note them
down at every change.
-/

namespace Lila.Scope

structure Chain (α : Type) where
  arena : Arena α
  valid : arena.Valid
  /-- Innermost first. -/
  stack : List Open
  stack_eq : stack = arena.stack

namespace Chain

variable {α : Type}

def new : Chain α := ⟨.new, Arena.valid_new, [⟨"global", 0⟩], rfl⟩

def push (c : Chain α) (name : String) : Chain α where
  arena := c.arena.push name
  valid := c.valid.push name
  stack := ⟨name, c.arena.tables.size⟩ :: c.stack
  stack_eq := by rw [c.valid.stack_push, c.stack_eq]

def pop (c : Chain α) : Chain α where
  arena := c.arena.pop
  valid := c.valid.pop
  stack := outside c.stack
  stack_eq := by rw [c.arena.stack_pop, c.stack_eq]

def define (c : Chain α) (name : String) (value : α) : Chain α where
  arena := c.arena.define name value
  valid := c.valid.define name value
  stack := c.stack
  stack_eq := by rw [c.arena.stack_define, c.stack_eq]

def here? (c : Chain α) (name : String) : Option α := c.arena.here? name

def isDefinedHere (c : Chain α) (name : String) : Bool := c.arena.isDefinedHere name

def lookup (c : Chain α) (name : String) : Option α := c.arena.lookup name

def depth (c : Chain α) : Nat := c.arena.depth

def path (c : Chain α) : String := c.arena.path

end Chain

end Lila.Scope
