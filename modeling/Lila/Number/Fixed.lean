import Lila.Number.Double

/-!
# Numbers with a fixed count of decimal places

The exact value is rounded once, to the nearest decimal and from the middle to
the even last digit. All digits before the point are written out, never an
exponent. The sign is kept also where the digits are all zero.
-/

namespace Lila

/-- The digits of `num / den` with `places` of them behind the point. -/
def Number.fixedDigits (places num den : Nat) : List Char :=
  let unit := Nat.pow 10 places
  let scaled := nearestEven (num * unit) den
  Nat.toDigits 10 (scaled / unit) ++
    '.' :: (Nat.toDigits 10 (scaled % unit)).leftpad places '0'

namespace Double

def toFixed (places : Nat) (x : Double) : String :=
  if x.isNaN then "NaN"
  else
    let unsigned :=
      if x.isInfinite then "inf"
      else String.ofList (Number.fixedDigits places x.units (1 <<< 1074))
    if x.negative then "-" ++ unsigned else unsigned

def display (x : Double) : String := x.toFixed 6

end Double

end Lila
