/-!
# Rounding a quotient

The one rounding rule of the library: to the nearest natural number, and from
the middle to the even neighbour. Literals are read with it and numbers are
printed with it.
-/

namespace Lila.Number

/-- The natural number nearest to `num / den`; in the middle between two, the even one. -/
def nearestEven (num den : Nat) : Nat :=
  let below := num / den
  let twice := 2 * (num % den)
  if twice < den then below
  else if den < twice then below + 1
  else if below % 2 = 0 then below
  else below + 1

end Lila.Number
