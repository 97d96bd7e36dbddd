import Lila.Scope.Chain
import Lila.Scope.Event
import Lila.Tree.ParseError

/-!
# The state of a parse

The tokens that are left, with the current one in front, and what is known of
the program so far: its scopes, and how many blocks were opened and are open. A
parser gives a result or an error, and in both cases the state after it. The
operations here look at the current token, move on to the next one, fail, and
open and close scopes.
-/

namespace Lila

namespace Parser

structure State where
  rest : List Lexeme
  /-- Each name with its parameters. -/
  scopes : Scope.Chain (List String) := .new
  /-- The number of blocks opened so far. -/
  opened : Nat := 0
  /-- The number of blocks open now. -/
  depth : Nat := 0
  /-- Newest first. -/
  events : List Scope.Event := []

end Parser

abbrev Parser := EStateM ParseError Parser.State

namespace Parser

variable {α β : Type}

/-! ## Running -/

theorem bind_run (p : Parser α) (f : α → Parser β) (s : State) :
    (p >>= f) s =
      match p s with
      | .ok a t => f a t
      | .error e t => .error e t := by
  simp only [bind, EStateM.bind]
  cases p s <;> rfl

theorem pure_run (a : α) (s : State) : (pure a : Parser α) s = .ok a s := rfl

theorem get_run (s : State) : (get : Parser State) s = .ok s s := rfl

/-! ## Tokens -/

def current : Parser (Option Token) :=
  return (← get).rest.head?.map Lexeme.token

def currentSpan : Parser (Option Span) :=
  return (← get).rest.head?.map Lexeme.span

def advance : Parser Unit :=
  modify fun s => { s with rest := s.rest.tail }

theorem current_run (s : State) : current s = .ok (s.rest.head?.map Lexeme.token) s := rfl

theorem advance_run (s : State) : advance s = .ok () { s with rest := s.rest.tail } := rfl

/-! ## Failures -/

def fail (cause : ParseError.Cause) : Parser α := do
  throw ⟨cause, ← currentSpan⟩

/-- Fails because the current token, or the end, is not what was expected. -/
def unexpected (expected : Expectation) : Parser α := do
  match ← current with
  | some found => fail (.unexpectedToken found expected)
  | none => fail (.unexpectedEnd expected)

theorem fail_run (cause : ParseError.Cause) (s : State) :
    (fail cause : Parser α) s = .error ⟨cause, s.rest.head?.map Lexeme.span⟩ s := rfl

theorem unexpected_run (expected : Expectation) (s : State) :
    (unexpected expected : Parser α) s =
      match s.rest with
      | [] => .error ⟨.unexpectedEnd expected, none⟩ s
      | x :: _ => .error ⟨.unexpectedToken x.token expected, some x.span⟩ s := by
  cases h : s.rest <;> simp [unexpected, bind_run, current_run, fail_run, h]

def expect (token : Token) : Parser Unit := do
  if (← current) = some token then advance else unexpected (.token token)

def name (expected : Expectation) : Parser (String × Span) := do
  match (← get).rest with
  | ⟨span, .ident name⟩ :: _ => advance; return (name, span)
  | _ => unexpected expected

/-! ## Scopes -/

def note (event : Scope.Event) : Parser Unit :=
  modify fun s => { s with events := event :: s.events }

def define (name : String) (params : List String) : Parser Unit := do
  note (.bound name ((← get).scopes.isDefinedHere name))
  modify fun s => { s with scopes := s.scopes.define name params }

def enter (name : String) (s : State) : State :=
  let scopes := s.scopes.push name
  { s with scopes := scopes, events := .entered scopes.stack :: s.events }

def leave (s : State) : State :=
  { s with scopes := s.scopes.pop, events := .left s.scopes.stack :: s.events }

/-- Runs a parser in a new scope, which is left whether it succeeds or fails. -/
def inScope (name : String) (body : Parser α) : Parser α := fun s =>
  match body (enter name s) with
  | .ok value s => .ok value (leave s)
  | .error e s => .error e (leave s)

/-- Runs the inside of a new block, given the number of blocks opened before it
and its depth. The block ends whether that succeeds or fails. -/
def inBlock (body : Nat → Nat → Parser α) : Parser α := fun s =>
  match body s.opened (s.depth + 1) { s with opened := s.opened + 1, depth := s.depth + 1 } with
  | .ok value s => .ok value { s with depth := s.depth - 1 }
  | .error e s => .error e { s with depth := s.depth - 1 }

end Parser

end Lila
