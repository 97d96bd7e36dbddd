import Lila.Number.Literal

/-!
# Log levels
-/

namespace Lila.Log

inductive Level where
  | off
  | error
  | warn
  | info
  | debug
  | trace
deriving DecidableEq

namespace Level

def all : List Level := [.off, .error, .warn, .info, .debug, .trace]

def rank : Level → Nat
  | .off => 0
  | .error => 1
  | .warn => 2
  | .info => 3
  | .debug => 4
  | .trace => 5

def name : Level → String
  | .off => "OFF"
  | .error => "ERROR"
  | .warn => "WARN"
  | .info => "INFO"
  | .debug => "DEBUG"
  | .trace => "TRACE"

/-- The number that a text of decimal digits writes, with or without a plus sign. -/
def number? (text : String) : Option Nat :=
  let digits := match text.toList with
    | '+' :: digits => digits
    | digits => digits
  if digits.isEmpty || !digits.all Char.isDigit then none
  else some (Literal.ofDigits digits)

/-- The level that a text names, in any case, or gives by number. -/
def ofText? (text : String) : Option Level :=
  match number? text with
  | some n => all.find? (·.rank = n)
  | none => all.find? (·.name.toLower = text.toLower)

end Level

end Lila.Log
