import Lila.Number.Rounding

/-!
# Double-precision numbers

A number is a sign and a magnitude, the 63 bits of its binary64 form below the
sign bit. The magnitudes of finite numbers are in the order of their values,
with the infinity right above the largest. Every finite value is a whole
multiple of `2 ^ -1074`, the least positive one, so that values are compared as
natural numbers (`units`).
-/

namespace Lila

/-- A binary64 number: its sign and the 63 bits below the sign bit. -/
structure Double where
  negative : Bool
  magnitude : Nat
  magnitude_lt : magnitude < 1 <<< 63
deriving DecidableEq

namespace Double

/-! ## Bits -/

/-- The number with the given 64 bits, the sign bit first. -/
def ofBits (bits : UInt64) : Double where
  negative := 1 <<< 63 ≤ bits.toNat
  magnitude := bits.toNat % (1 <<< 63)
  magnitude_lt := Nat.mod_lt _ (by decide)

def toBits (x : Double) : UInt64 :=
  UInt64.ofNat ((if x.negative then 1 <<< 63 else 0) + x.magnitude)

/-! ## Classes -/

/-- The magnitude of the infinities. Finite numbers are below it, and the
magnitudes above it stand for no number. -/
def infinityMagnitude : Nat := 2047 <<< 52

def isNaN (x : Double) : Bool := infinityMagnitude < x.magnitude

def isInfinite (x : Double) : Bool := x.magnitude == infinityMagnitude

def isFinite (x : Double) : Bool := x.magnitude < infinityMagnitude

/-! ## Values -/

/-- The value of a finite magnitude in units of `2 ^ -1074`. The upper bits are
the exponent: at 0 the lower 52 bits are the value, and above 0 they follow a
leading one bit, in a unit that doubles with each exponent. -/
def unitsOf (magnitude : Nat) : Nat :=
  let exponent := magnitude >>> 52
  let fraction := magnitude % (1 <<< 52)
  if exponent = 0 then fraction else (1 <<< 52 + fraction) <<< (exponent - 1)

def units (x : Double) : Nat := unitsOf x.magnitude

/-- The magnitude of the number nearest to `num / den`, not yet cut off at the
infinity. With `shift` the number of lower bits that a significand of 53 bits
drops, `shift <<< 52` selects the exponent, and a significand that is rounded
up to `2 ^ 53` carries into it. -/
def nearestMagnitude (num den : Nat) : Nat :=
  let scaled := num <<< 1074
  let shift := Nat.log2 (scaled / den) - 52
  shift <<< 52 + Number.nearestEven scaled (den <<< shift)

/-- The number nearest to `num / den`, from the middle the one with an even
magnitude, and the infinity from half a unit above the largest finite number. -/
def ofRatio (num den : Nat) : Double where
  negative := false
  magnitude := min (nearestMagnitude num den) infinityMagnitude
  magnitude_lt := Nat.lt_of_le_of_lt (Nat.min_le_right _ _) (by decide)

end Double

end Lila
