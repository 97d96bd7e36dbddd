import Lila.Log.Directive

/-!
# Log filters

A filter is a list of directives with commas between them. What a record needs
to be shown is decided by the most specific directive that speaks of it: the one
with the longest target, then the one with a field. Where none does, nothing is
shown. Nothing is logged from inside a span, and fields are known by their names
alone, so a directive with a span or with the value of a field decides nothing.

The filter in force is that of the environment if all of it can be read, else
the default, of which each piece that cannot be read is left out with a note.
-/

namespace Lila.Log

namespace Directive

def covers (source : String) (fields : List String) (d : Directive) : Bool :=
  d.span.isNone &&
    (match d.target with
      | none => true
      | some target => source.startsWith target) &&
    (match d.field with
      | none => true
      | some ⟨name, value⟩ => value.isNone && fields.contains name)

/-- How specific the target of a directive is: by its length, none the least. -/
def weight (d : Directive) : Nat :=
  match d.target with
  | none => 0
  | some target => target.utf8ByteSize + 1

/-- Whether the first directive is less specific than the second. Of two fields
the one that comes later in the alphabet is more specific. -/
def below (a b : Directive) : Bool :=
  if a.weight = b.weight then
    match a.field, b.field with
    | none, some _ => true
    | some x, some y => decide (x.name < y.name)
    | _, none => false
  else a.weight < b.weight

end Directive

/-- A piece of the default filter that is left out, and why. -/
structure Note where
  piece : String
  fault : Directive.Fault
deriving DecidableEq

def Note.display (n : Note) : String := "ignoring `" ++ n.piece ++ "`: " ++ n.fault.message

/-- Newest first. -/
structure Filter where
  directives : List Directive
deriving DecidableEq

namespace Filter

/-- The texts between the commas, without the empty ones. -/
def pieces (text : String) : List String := (text.splitOn ",").filter (· != "")

/-- The filter of all directives in a text that can be read. -/
def ofTextLossy (text : String) : Filter :=
  ⟨((pieces text).filterMap fun piece => (Directive.ofText piece).toOption).reverse⟩

def faultsOf (text : String) : List Note :=
  (pieces text).filterMap fun piece =>
    match Directive.ofText piece with
    | .ok _ => none
    | .error fault => some ⟨piece, fault⟩

def ofText? (text : String) : Option Filter :=
  if (faultsOf text).isEmpty then some (ofTextLossy text) else none

/-- The filter in force: that of the environment if it has one and can be read, else
the default. -/
def inForce (setting : Option String) (default : String) : Filter :=
  (setting.bind ofText?).getD (ofTextLossy default)

def notes (setting : Option String) (default : String) : List Note :=
  match setting.bind ofText? with
  | some _ => []
  | none => faultsOf default

/-- The more specific of two directives, the first if neither is. -/
def moreSpecific (a b : Directive) : Directive := if a.below b then b else a

/-- The level of the records of a source with the given fields. Of two directives
that differ in their level alone the newer counts. -/
def levelOf (f : Filter) (source : String) (fields : List String) : Level :=
  match f.directives.filter (·.covers source fields) with
  | [] => .off
  | d :: ds => (ds.foldl moreSpecific d).level

def shows (f : Filter) (source : String) (fields : List String) (level : Level) : Bool :=
  level.rank ≤ (f.levelOf source fields).rank

end Filter

end Lila.Log
