import Lila.Log.Level
import Lila.Log.Pattern
import Lila.Source.Span
import Lila.Text.Alphanumeric
import Lila.Text.Blank

/-!
# Directives of a log filter

A directive is a level, a target, or a target with its level, as in
`target=level`. Behind the target it may have a span and a field in brackets, as
in `target[span{field}]=level`. Without a level it shows everything.

White space around a directive is passed over when its parts are looked for. The
parts are then cut out of the text as it was given, at the places found without
the white space, so that white space in front moves every part.
-/

namespace Lila.Log

structure Field where
  name : String
  value : Option String
deriving DecidableEq

/-- The field that a text asks for. A second equals sign ends the value. -/
def Field.ofText (text : String) : Field :=
  match text.splitOn "=" with
  | name :: value :: _ => ⟨name, some value⟩
  | _ => ⟨text, none⟩

/-- The level of the records that a directive speaks of: those of the sources
whose names start with the target, inside a span, with a field. -/
structure Directive where
  target : Option String := none
  span : Option String := none
  field : Option Field := none
  level : Level := .trace
deriving DecidableEq

namespace Directive

inductive Fault where
  | malformed
  | unknownLevel
  | value (fault : Pattern.Fault)
deriving DecidableEq

def Fault.message : Fault → String
  | .malformed => "invalid filter directive"
  | .unknownLevel =>
      "error parsing level filter: expected one of \"off\", \"error\", \"warn\", \"info\", " ++
        "\"debug\", \"trace\", or a number 0-5"
  | .value fault => "invalid field filter: " ++ fault.message

/-! ## Parts of a text -/

/-- The characters of a text that start at a byte offset from `lo` on and before
`hi`, `offset` being that of its first character. -/
def cutFrom (lo hi : Nat) : Nat → List Char → List Char
  | _, [] => []
  | offset, c :: text =>
      let more := cutFrom lo hi (offset + c.utf8Size) text
      if lo ≤ offset && offset < hi then c :: more else more

def cut (text : List Char) (lo hi : Nat) : String := String.ofList (cutFrom lo hi 0 text)

def trim (text : List Char) : List Char := Text.trimEnd (text.dropWhile Text.isBlank)

/-! ## Reading -/

def startsTarget (c : Char) : Bool := Text.isAlphanumeric c || c == '_' || c == '-' || c == ':'

/-- The level behind an equals sign, everything if there is none. -/
def levelOf (text : String) : Except Fault Level :=
  if text = "" then .ok .trace
  else
    match Level.ofText? text with
    | some level => .ok level
    | none => .error .unknownLevel

/-- A directive from a byte offset on, where only the level is left to read. -/
def afterBrackets (text : List Char) (offset : Nat) (d : Directive) :
    List Char → Except Fault Directive
  | [] => .ok d
  | '=' :: _ => do return { d with level := ← levelOf (cut text (offset + 1) (byteLength text)) }
  | _ => .error .malformed

def inBrackets (text : List Char) (offset : Nat) (d : Directive) (rest : List Char) :
    Except Fault Directive :=
  let (name, rest) := rest.span fun c => c != ']' && c != '{'
  let close := offset + byteLength name
  let span := cut text offset close
  match rest with
  | ']' :: rest => afterBrackets text (close + 1) { d with span := some span } rest
  | '{' :: rest =>
      let (field, rest) := rest.span (· != '}')
      let last := close + 1 + byteLength field
      match rest with
      | '}' :: rest =>
          if field.isEmpty then .error .malformed
          else
            let field := Field.ofText (cut text (close + 1) last)
            match field.value.bind Pattern.fault?, rest with
            | some fault, _ => .error (.value fault)
            | none, ']' :: rest =>
                afterBrackets text (last + 2)
                  { d with span := if span = "" then none else some span, field := some field }
                  rest
            | none, _ => .error .malformed
      | _ => .error .malformed
  | _ => .error .malformed

/-- The directive of a whole text without brackets and level: a level if it
names one, else a target. -/
def ofName (text : String) : Directive :=
  match Level.ofText? text with
  | some level => { level := level }
  | none => { target := some text }

def ofText (text : String) : Except Fault Directive :=
  let given := text.toList
  match trim given with
  | [] => .error .malformed
  | '[' :: rest => inBrackets given 1 {} rest
  | c :: rest =>
      if !startsTarget c then .error .malformed
      else
        let (name, rest) := (c :: rest).span fun c => c != '=' && c != '['
        let last := byteLength name
        let d : Directive := { target := some (cut given 0 last) }
        match rest with
        | '[' :: rest => inBrackets given (last + 1) d rest
        | '=' :: _ => afterBrackets given last d rest
        | _ => .ok (ofName text)

end Directive

end Lila.Log
