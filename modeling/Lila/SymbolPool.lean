/-!
# Pool of symbol texts

A symbol is handed on as a text that a NUL character ends, so that none may be in
it. The pool keeps one text for each value it has seen.
-/

namespace Lila

structure SymbolPool where
  entries : List (String × String) := []
deriving DecidableEq

namespace SymbolPool

/-- The text with an end, nothing if it would end before. -/
def terminated? (text : String) : Option String :=
  if '\x00' ∈ text.toList then none else some text

def withoutNul (value : String) : String := String.ofList (value.toList.filter (· != '\x00'))

/-- A value without its NUL characters, or nothing of it if that has no end. -/
def textOf (value : String) : String := (terminated? (withoutNul value)).getD ""

def intern (pool : SymbolPool) (value : String) : String × SymbolPool :=
  match pool.entries.lookup value with
  | some text => (text, pool)
  | none => (textOf value, ⟨(value, textOf value) :: pool.entries⟩)

def size (pool : SymbolPool) : Nat := pool.entries.length

def isEmpty (pool : SymbolPool) : Bool := pool.entries.isEmpty

end SymbolPool

end Lila
