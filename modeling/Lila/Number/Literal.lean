import Lila.Number.Double

/-!
# Decimal literals

A literal is a run of digits, or two runs with a point between them. `scan`
takes the longest literal off a text, and `value?` reads a text as a literal.
-/

namespace Lila.Literal

def ofDigits (digits : List Char) : Nat :=
  digits.foldl (fun n d => 10 * n + (d.toNat - '0'.toNat)) 0

/-- Goes over digits, and over the first point among them. What it goes over is put in
front of `taken`, newest first. -/
def absorb (dotted : Bool) (taken : List Char) : List Char → List Char × List Char
  | [] => (taken, [])
  | c :: rest =>
      if c.isDigit then absorb dotted (c :: taken) rest
      else if c = '.' ∧ dotted = false then absorb true (c :: taken) rest
      else (taken, c :: rest)

/-- The literal at the front of a text that starts with a digit, and what follows
it. A literal does not end in a point: one with no digit behind it is given back,
and noted as such. -/
def scan (text : List Char) : List Char × List Char × Bool :=
  match absorb false [] text with
  | ('.' :: taken, rest) => (taken.reverse, '.' :: rest, true)
  | (taken, rest) => (taken.reverse, rest, false)

/-- The number nearest to the decimal value of a literal; nothing for a text
that is no literal. -/
def value? (text : List Char) : Option Double :=
  let whole := text.takeWhile Char.isDigit
  if whole.isEmpty then none
  else
    match text.dropWhile Char.isDigit with
    | [] => some (.ofRatio (ofDigits whole) 1)
    | '.' :: fraction =>
        if fraction.isEmpty || !fraction.all Char.isDigit then none
        else some (.ofRatio (ofDigits (whole ++ fraction)) (Nat.pow 10 fraction.length))
    | _ => none

end Lila.Literal
