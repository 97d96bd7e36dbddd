import Lila.Number.Double
import Mathlib.Algebra.Order.Field.Rat
import Mathlib.Algebra.Order.Ring.Abs
import Mathlib.Order.Monotone.Basic
import Mathlib.Tactic.FieldSimp
import Mathlib.Tactic.Linarith
import Mathlib.Tactic.Ring

/-! # Rounding to the nearest number

A ratio of natural numbers is rounded to the binary64 number nearest to it. What a
rounding has to give is said with the values of numbers (`Double.Nearest`) and not with
their bits. The proof compares the ratio with the middles between neighbouring
magnitudes: values grow with the magnitude, so what lies between the two middles around
a magnitude is nearer to it than to any other.
-/

namespace Lila

/-! ## Quotients -/

namespace Number

section NearestEven

variable {num den : Nat}

theorem nearestEven_cases (num den : Nat) :
    (nearestEven num den = num / den ∧ 2 * (num % den) ≤ den) ∨
      (nearestEven num den = num / den + 1 ∧ den ≤ 2 * (num % den)) := by
  unfold nearestEven
  dsimp only
  split
  · exact .inl ⟨rfl, by omega⟩
  · split
    · exact .inr ⟨rfl, by omega⟩
    · split
      · exact .inl ⟨rfl, by omega⟩
      · exact .inr ⟨rfl, by omega⟩

/-- Halfway between two multiples of the denominator, the even one is taken. -/
theorem nearestEven_half (h : 2 * (num % den) = den) : nearestEven num den % 2 = 0 := by
  unfold nearestEven
  dsimp only
  rw [if_neg (by omega), if_neg (by omega)]
  split <;> omega

/-- The rounded quotient is at most half a denominator too small, and even if it is as
much as that. -/
theorem le_nearestEven (num : Nat) (hden : 0 < den) :
    2 * num ≤ 2 * (nearestEven num den * den) + den ∧
      (2 * num = 2 * (nearestEven num den * den) + den → nearestEven num den % 2 = 0) := by
  have hdiv := Nat.div_add_mod' num den
  have hmod := Nat.mod_lt num hden
  rcases nearestEven_cases num den with ⟨hr, hhalf⟩ | ⟨hr, hhalf⟩
  · refine ⟨by rw [hr]; omega, fun htie => nearestEven_half ?_⟩
    rw [hr] at htie
    omega
  · have hnext : (num / den + 1) * den = num / den * den + den := Nat.succ_mul _ _
    refine ⟨by rw [hr, hnext]; omega, fun htie => nearestEven_half ?_⟩
    rw [hr, hnext] at htie
    omega

/-- It is at most half a denominator too large, and even if it is as much as that. -/
theorem nearestEven_le (num : Nat) (hden : 0 < den) :
    2 * (nearestEven num den * den) ≤ 2 * num + den ∧
      (2 * (nearestEven num den * den) = 2 * num + den → nearestEven num den % 2 = 0) := by
  have hdiv := Nat.div_add_mod' num den
  rcases nearestEven_cases num den with ⟨hr, hhalf⟩ | ⟨hr, hhalf⟩
  · refine ⟨by rw [hr]; omega, fun htie => nearestEven_half ?_⟩
    rw [hr] at htie
    omega
  · have hnext : (num / den + 1) * den = num / den * den + den := Nat.succ_mul _ _
    refine ⟨by rw [hr, hnext]; omega, fun htie => nearestEven_half ?_⟩
    rw [hr, hnext] at htie
    omega

theorem nearestEven_le_of_le {k : Nat} (hden : 0 < den) (h : num ≤ k * den) :
    nearestEven num den ≤ k := by
  have hle := (nearestEven_le num hden).1
  have hlt : 2 * nearestEven num den * den < (2 * k + 2) * den := by
    rw [Nat.add_mul, Nat.mul_assoc, Nat.mul_assoc]
    omega
  have := Nat.lt_of_mul_lt_mul_right hlt
  omega

theorem le_nearestEven_of_le {k : Nat} (hden : 0 < den) (h : k * den ≤ num) :
    k ≤ nearestEven num den := by
  have hle := (le_nearestEven num hden).1
  have hlt : 2 * k * den < (2 * nearestEven num den + 2) * den := by
    rw [Nat.add_mul, Nat.mul_assoc, Nat.mul_assoc]
    omega
  have := Nat.lt_of_mul_lt_mul_right hlt
  omega

end NearestEven

end Number

namespace Double

/-! ## Magnitudes -/

/-- A magnitude is made of a significand and the number of bits dropped behind it; without
its leading bit, the significand stands only where no bit is dropped. -/
theorem unitsOf_significand {shift significand : Nat} (hshift : shift = 0 ∨ 2 ^ 52 ≤ significand)
    (hle : significand ≤ 2 ^ 53) :
    unitsOf (shift * 2 ^ 52 + significand) = significand * 2 ^ shift := by
  unfold unitsOf
  simp only [Nat.shiftRight_eq_div_pow, Nat.shiftLeft_eq, Nat.one_mul]
  by_cases hsmall : significand < 2 ^ 52
  · have hzero : shift = 0 := by omega
    subst hzero
    rw [if_pos (by omega)]
    omega
  · by_cases hfull : significand = 2 ^ 53
    · subst hfull
      have hexponent : (shift * 2 ^ 52 + 2 ^ 53) / 2 ^ 52 = shift + 2 := by omega
      have hfraction : (shift * 2 ^ 52 + 2 ^ 53) % 2 ^ 52 = 0 := by omega
      rw [hexponent, hfraction, if_neg (by omega), Nat.add_succ_sub_one, Nat.pow_succ]
      omega
    · have hexponent : (shift * 2 ^ 52 + significand) / 2 ^ 52 = shift + 1 := by omega
      have hfraction : 2 ^ 52 + (shift * 2 ^ 52 + significand) % 2 ^ 52 = significand := by omega
      rw [hexponent, hfraction, if_neg (by omega), Nat.add_sub_cancel]

theorem exists_significand (magnitude : Nat) :
    ∃ shift significand, magnitude = shift * 2 ^ 52 + significand ∧
      (shift = 0 ∨ 2 ^ 52 ≤ significand) ∧ significand < 2 ^ 53 := by
  refine ⟨magnitude / 2 ^ 52 - 1, magnitude - (magnitude / 2 ^ 52 - 1) * 2 ^ 52, ?_, ?_, ?_⟩
  all_goals omega

theorem unitsOf_strictMono : StrictMono unitsOf := by
  refine strictMono_nat_of_lt_succ fun magnitude => ?_
  obtain ⟨shift, significand, rfl, hshift, hlt⟩ := exists_significand magnitude
  rw [Nat.add_assoc, unitsOf_significand hshift hlt.le,
    unitsOf_significand (hshift.imp_right Nat.le_succ_of_le) hlt, Nat.succ_mul]
  exact Nat.lt_add_of_pos_right (Nat.two_pow_pos shift)

/-! ## The magnitude nearest to a ratio -/

section NearestMagnitude

variable {num den : Nat}

/-- How many bits are dropped: as many as leave a significand of 53 bits, and none from a
shorter one. -/
theorem exists_shift (num : Nat) (hden : 0 < den) :
    ∃ shift, nearestMagnitude num den =
        shift * 2 ^ 52 + Number.nearestEven (num * 2 ^ 1074) (den * 2 ^ shift) ∧
      (shift = 0 ∨ 2 ^ 52 * (den * 2 ^ shift) ≤ num * 2 ^ 1074) ∧
      num * 2 ^ 1074 ≤ 2 ^ 53 * (den * 2 ^ shift) := by
  unfold nearestMagnitude
  rw [← Nat.shiftLeft_eq]
  generalize num <<< 1074 = scaled
  simp only [Nat.shiftLeft_eq]
  generalize hlog : Nat.log2 (scaled / den) = bits
  have hlarge : scaled < 2 ^ (bits + 1) * den := by
    rw [← Nat.div_lt_iff_lt_mul hden, ← hlog]
    exact Nat.lt_log2_self
  refine ⟨bits - 52, rfl, ?_, ?_⟩
  · by_cases hbits : bits ≤ 52
    · exact .inl (by omega)
    · right
      have hne : scaled / den ≠ 0 := by
        intro hzero
        rw [hzero] at hlog
        have : bits = 0 := hlog.symm
        omega
      have hsmall : 2 ^ bits * den ≤ scaled := by
        rw [← Nat.le_div_iff_mul_le hden, ← hlog]
        exact Nat.log2_self_le hne
      calc 2 ^ 52 * (den * 2 ^ (bits - 52)) = 2 ^ (52 + (bits - 52)) * den := by
            rw [Nat.pow_add, Nat.mul_comm den, Nat.mul_assoc]
        _ = 2 ^ bits * den := by rw [Nat.add_sub_cancel' (by omega)]
        _ ≤ scaled := hsmall
  · calc scaled ≤ 2 ^ (bits + 1) * den := hlarge.le
      _ ≤ 2 ^ (53 + (bits - 52)) * den :=
        Nat.mul_le_mul_right den (Nat.pow_le_pow_right (by omega) (by omega))
      _ = 2 ^ 53 * (den * 2 ^ (bits - 52)) := by
        rw [Nat.pow_add, Nat.mul_comm den, Nat.mul_assoc]

/-- The ratio in units of `2 ^ -1074` is `scaled / den`, and the unit of its significand is
`2 ^ shift` of them. -/
structure Split (scaled den shift significand magnitude : Nat) : Prop where
  magnitude_eq : magnitude = shift * 2 ^ 52 + significand
  above : shift = 0 ∨ 2 ^ 52 * (den * 2 ^ shift) ≤ scaled
  leading : shift = 0 ∨ 2 ^ 52 ≤ significand
  significand_le : significand ≤ 2 ^ 53
  le_half : 2 * scaled ≤ 2 * (significand * (den * 2 ^ shift)) + den * 2 ^ shift
  half_le : 2 * (significand * (den * 2 ^ shift)) ≤ 2 * scaled + den * 2 ^ shift
  even : 2 * scaled = 2 * (significand * (den * 2 ^ shift)) + den * 2 ^ shift ∨
      2 * (significand * (den * 2 ^ shift)) = 2 * scaled + den * 2 ^ shift →
    significand % 2 = 0

theorem exists_split (num : Nat) (hden : 0 < den) :
    ∃ shift significand,
      Split (num * 2 ^ 1074) den shift significand (nearestMagnitude num den) := by
  obtain ⟨shift, hmagnitude, habove, hle⟩ := exists_shift num hden
  have hpos : 0 < den * 2 ^ shift := Nat.mul_pos hden (Nat.two_pow_pos shift)
  obtain ⟨hlehalf, heven⟩ := Number.le_nearestEven (num * 2 ^ 1074) hpos
  obtain ⟨hhalfle, heven'⟩ := Number.nearestEven_le (num * 2 ^ 1074) hpos
  exact ⟨shift, _, hmagnitude, habove, habove.imp_right (Number.le_nearestEven_of_le hpos),
    Number.nearestEven_le_of_le hpos hle, hlehalf, hhalfle, fun h => h.elim heven heven'⟩

section Split

variable {scaled shift significand magnitude : Nat}

theorem Split.units_eq (h : Split scaled den shift significand magnitude) :
    unitsOf magnitude = significand * 2 ^ shift := by
  rw [h.magnitude_eq]
  exact unitsOf_significand h.leading h.significand_le

/-- The ratio is not above the middle to the next magnitude, and in the middle only for an
even one. -/
theorem Split.upper (h : Split scaled den shift significand magnitude) :
    2 * scaled ≤ (unitsOf magnitude + unitsOf (magnitude + 1)) * den ∧
      (2 * scaled = (unitsOf magnitude + unitsOf (magnitude + 1)) * den →
        magnitude % 2 = 0) := by
  have hmagnitude := h.magnitude_eq
  have hle := h.significand_le
  have hnext : (significand + 1) * 2 ^ shift ≤ unitsOf (magnitude + 1) := by
    by_cases hfull : significand = 2 ^ 53
    · -- the next magnitude drops one bit more, so that its unit is twice as large
      have hcarry : magnitude + 1 = (shift + 1) * 2 ^ 52 + (2 ^ 52 + 1) := by omega
      rw [hcarry, unitsOf_significand (.inr (by omega)) (by omega), Nat.pow_succ 2 shift, hfull]
      omega
    · rw [hmagnitude, Nat.add_assoc,
        unitsOf_significand (h.leading.imp_right Nat.le_succ_of_le) (by omega)]
  have hmiddle : 2 * (significand * (den * 2 ^ shift)) + den * 2 ^ shift ≤
      (unitsOf magnitude + unitsOf (magnitude + 1)) * den := by
    calc 2 * (significand * (den * 2 ^ shift)) + den * 2 ^ shift
        = (significand * 2 ^ shift + (significand + 1) * 2 ^ shift) * den := by ring
      _ ≤ (unitsOf magnitude + unitsOf (magnitude + 1)) * den := by
        rw [h.units_eq]
        exact Nat.mul_le_mul_right den (Nat.add_le_add_left hnext _)
  refine ⟨h.le_half.trans hmiddle, fun htie => ?_⟩
  have heven := h.even (.inl (Nat.le_antisymm h.le_half (htie ▸ hmiddle)))
  omega

/-- The ratio is not below the middle to the magnitude before, and in the middle only for an
even one. -/
theorem Split.lower (h : Split scaled den shift significand (magnitude + 1)) (hden : 0 < den) :
    (unitsOf magnitude + unitsOf (magnitude + 1)) * den ≤ 2 * scaled ∧
      ((unitsOf magnitude + unitsOf (magnitude + 1)) * den = 2 * scaled →
        (magnitude + 1) % 2 = 0) := by
  have hmagnitude := h.magnitude_eq
  have hle := h.significand_le
  have hleading := h.leading
  by_cases hsame : shift = 0 ∨ 2 ^ 52 < significand
  · -- the magnitude before has the same unit
    obtain ⟨before, rfl⟩ : ∃ before, significand = before + 1 :=
      Nat.exists_eq_add_of_le' (by omega)
    have hbefore : unitsOf magnitude = before * 2 ^ shift := by
      rw [← unitsOf_significand (hsame.imp_right Nat.le_of_lt_succ) (by omega)]
      congr 1
      omega
    have hmiddle : (unitsOf magnitude + unitsOf (magnitude + 1)) * den + den * 2 ^ shift =
        2 * ((before + 1) * (den * 2 ^ shift)) := by
      rw [hbefore, h.units_eq]
      ring
    have hhalf := h.half_le
    refine ⟨by omega, fun htie => ?_⟩
    have heven := h.even (.inr (by omega))
    omega
  · -- the ratio is at a power of two or above it, and the magnitude before is below it
    have hpower : significand = 2 ^ 52 := by omega
    have habove : unitsOf (magnitude + 1) * den ≤ scaled := by
      rw [h.units_eq, hpower, Nat.mul_assoc, Nat.mul_comm (2 ^ shift)]
      exact h.above.resolve_left fun hzero => hsame (.inl hzero)
    have hless : unitsOf magnitude * den < unitsOf (magnitude + 1) * den :=
      Nat.mul_lt_mul_of_pos_right (unitsOf_strictMono (Nat.lt_succ_self magnitude)) hden
    have hlt : (unitsOf magnitude + unitsOf (magnitude + 1)) * den < 2 * scaled := by
      rw [Nat.add_mul]
      omega
    exact ⟨hlt.le, fun htie => absurd htie hlt.ne⟩

end Split

end NearestMagnitude

/-! ## Values -/

/-- The value that binary64 gives to a finite magnitude. Where the exponent is 0, the
fraction counts units of `2 ^ -1074`; above, it stands behind a leading one. -/
def valueOf (magnitude : Nat) : ℚ :=
  let exponent : Nat := magnitude / 2 ^ 52
  let fraction : Nat := magnitude % 2 ^ 52
  if exponent = 0 then fraction / 2 ^ 1074
  else (1 + fraction / 2 ^ 52) * 2 ^ ((exponent : ℤ) - 1023)

def value (x : Double) : ℚ := if x.negative then -valueOf x.magnitude else valueOf x.magnitude

theorem valueOf_eq (magnitude : Nat) : valueOf magnitude = unitsOf magnitude / 2 ^ 1074 := by
  unfold valueOf unitsOf
  simp only [Nat.shiftRight_eq_div_pow, Nat.shiftLeft_eq, Nat.one_mul]
  generalize magnitude % 2 ^ 52 = fraction
  cases magnitude / 2 ^ 52 with
  | zero => rfl
  | succ exponent =>
      rw [if_neg (Nat.succ_ne_zero exponent), if_neg (Nat.succ_ne_zero exponent)]
      have hpower : (2 : ℚ) ^ (((exponent + 1 : Nat) : ℤ) - 1023) =
          2 ^ 52 * 2 ^ exponent / 2 ^ 1074 := by
        rw [eq_div_iff (by positivity), ← zpow_natCast, ← zpow_natCast, ← zpow_natCast,
          ← zpow_add₀ two_ne_zero, ← zpow_add₀ two_ne_zero]
        congr 1
        push_cast
        omega
      rw [hpower]
      push_cast
      field_simp
      norm_num

theorem valueOf_strictMono : StrictMono valueOf := by
  intro a b hlt
  rw [valueOf_eq, valueOf_eq]
  exact div_lt_div_of_pos_right (Nat.cast_lt.2 (unitsOf_strictMono hlt)) (by positivity)

theorem valueOf_nonneg (magnitude : Nat) : 0 ≤ valueOf magnitude := by
  rw [valueOf_eq]
  exact div_nonneg (Nat.cast_nonneg _) (by positivity)

section Middle

variable {num den : Nat}

/-- The sum of two values, in a unit that makes it and the double of the ratio whole. -/
theorem valueOf_add_mul (den a b : Nat) :
    (valueOf a + valueOf b) * (2 ^ 1074 * den) = ((unitsOf a + unitsOf b) * den : Nat) := by
  rw [valueOf_eq, valueOf_eq, Nat.cast_mul, Nat.cast_add]
  field_simp

theorem two_mul_ratio_mul (num : Nat) (hden : 0 < den) :
    2 * (num / den : ℚ) * (2 ^ 1074 * den) = (2 * (num * 2 ^ 1074) : Nat) := by
  have hne : (den : ℚ) ≠ 0 := Nat.cast_ne_zero.2 hden.ne'
  rw [Nat.cast_mul, Nat.cast_mul, Nat.cast_pow, Nat.cast_ofNat]
  field_simp

theorem le_middle_iff (num : Nat) (hden : 0 < den) (a b : Nat) :
    2 * (num / den : ℚ) ≤ valueOf a + valueOf b ↔
      2 * (num * 2 ^ 1074) ≤ (unitsOf a + unitsOf b) * den := by
  have hpos : (0 : ℚ) < 2 ^ 1074 * den := by positivity
  rw [← mul_le_mul_iff_left₀ hpos, valueOf_add_mul, two_mul_ratio_mul num hden, Nat.cast_le]

theorem middle_le_iff (num : Nat) (hden : 0 < den) (a b : Nat) :
    valueOf a + valueOf b ≤ 2 * (num / den : ℚ) ↔
      (unitsOf a + unitsOf b) * den ≤ 2 * (num * 2 ^ 1074) := by
  have hpos : (0 : ℚ) < 2 ^ 1074 * den := by positivity
  rw [← mul_le_mul_iff_left₀ hpos, valueOf_add_mul, two_mul_ratio_mul num hden, Nat.cast_le]

/-- The ratio is not above the middle to the next magnitude, and in the middle only for an
even one. -/
theorem le_middle_next (num : Nat) (hden : 0 < den) :
    2 * (num / den : ℚ) ≤
        valueOf (nearestMagnitude num den) + valueOf (nearestMagnitude num den + 1) ∧
      (2 * (num / den : ℚ) =
        valueOf (nearestMagnitude num den) + valueOf (nearestMagnitude num den + 1) →
        nearestMagnitude num den % 2 = 0) := by
  obtain ⟨shift, significand, hsplit⟩ := exists_split num hden
  refine ⟨(le_middle_iff num hden _ _).2 hsplit.upper.1, fun htie => hsplit.upper.2 ?_⟩
  exact Nat.le_antisymm hsplit.upper.1 ((middle_le_iff num hden _ _).1 htie.ge)

/-- The ratio is not below the middle to the magnitude before, and in the middle only for an
even one. -/
theorem middle_before_le {magnitude : Nat} (hden : 0 < den)
    (h : nearestMagnitude num den = magnitude + 1) :
    valueOf magnitude + valueOf (magnitude + 1) ≤ 2 * (num / den : ℚ) ∧
      (valueOf magnitude + valueOf (magnitude + 1) = 2 * (num / den : ℚ) →
        (magnitude + 1) % 2 = 0) := by
  obtain ⟨shift, significand, hsplit⟩ := exists_split num hden
  rw [h] at hsplit
  have hlower := hsplit.lower hden
  refine ⟨(middle_le_iff num hden _ _).2 hlower.1, fun htie => hlower.2 ?_⟩
  exact Nat.le_antisymm hlower.1 ((le_middle_iff num hden _ _).1 htie.ge)

end Middle

/-! ## The nearest number -/

def largest : Double := ⟨false, infinityMagnitude - 1, by decide⟩

/-- The middle between the largest finite number and `2 ^ 1024`, which would come next. -/
def overflow : ℚ := (largest.value + 2 ^ 1024) / 2

/-- The number that a value is rounded to: the finite one nearest to it, from the middle
between two the one whose last bit is 0, and the infinity from half a unit above the
largest finite one on. -/
structure Nearest (q : ℚ) (x : Double) : Prop where
  positive : x.negative = false
  finite : q < overflow → x.isFinite = true
  infinite : overflow ≤ q → x.isInfinite = true
  nearest : q < overflow → ∀ y : Double, y.isFinite = true → |x.value - q| ≤ |y.value - q|
  even : q < overflow → ∀ y : Double, y.isFinite = true → y.value ≠ x.value →
    |x.value - q| = |y.value - q| → x.magnitude % 2 = 0

theorem overflow_eq :
    2 * overflow = valueOf (infinityMagnitude - 1) + valueOf infinityMagnitude := by
  have hnext : valueOf infinityMagnitude = 2 ^ 1024 := by
    have hunits : unitsOf (2045 * 2 ^ 52 + 2 ^ 53) = 2 ^ 53 * 2 ^ 2045 :=
      unitsOf_significand (.inr (by omega)) (Nat.le_refl _)
    have hinfinity : 2045 * 2 ^ 52 + 2 ^ 53 = infinityMagnitude := by decide
    rw [hinfinity] at hunits
    rw [valueOf_eq, hunits, div_eq_iff (by positivity), ← pow_add, ← pow_add, Nat.cast_pow,
      Nat.cast_ofNat]
  rw [hnext]
  exact mul_div_cancel₀ _ two_ne_zero

/-- Of two values, the one on the same side of their middle is nearer. -/
theorem abs_sub_le_iff (a b q : ℚ) : |a - q| ≤ |b - q| ↔ (a - b) * (a + b - 2 * q) ≤ 0 := by
  rw [← sq_le_sq, ← sub_nonpos]
  ring_nf

theorem abs_sub_eq_iff (a b q : ℚ) : |a - q| = |b - q| ↔ a = b ∨ a + b = 2 * q := by
  rw [abs_eq_abs]
  constructor
  · rintro (h | h)
    · exact .inl (by linarith)
    · exact .inr (by linarith)
  · rintro (h | h)
    · exact .inl (by linarith)
    · exact .inr (by linarith)

section OfRatio

variable {num den : Nat}

theorem ratio_nonneg (num den : Nat) : (0 : ℚ) ≤ num / den :=
  div_nonneg (Nat.cast_nonneg num) (Nat.cast_nonneg den)

theorem value_cases (y : Double) : y.value = valueOf y.magnitude ∨ y.value ≤ 0 := by
  unfold value
  split
  · exact .inr (neg_nonpos.2 (valueOf_nonneg y.magnitude))
  · exact .inl rfl

theorem value_le_valueOf {y : Double} {magnitude : Nat}
    (h : y.value < valueOf (magnitude + 1)) : y.value ≤ valueOf magnitude := by
  rcases value_cases y with hy | hy
  · rw [hy] at h ⊢
    exact valueOf_strictMono.monotone (Nat.lt_succ_iff.1 (valueOf_strictMono.lt_iff_lt.1 h))
  · exact hy.trans (valueOf_nonneg magnitude)

theorem valueOf_le_value {y : Double} {magnitude : Nat} (h : valueOf magnitude < y.value) :
    valueOf (magnitude + 1) ≤ y.value := by
  rcases value_cases y with hy | hy
  · rw [hy] at h ⊢
    exact valueOf_strictMono.monotone (Nat.succ_le_of_lt (valueOf_strictMono.lt_iff_lt.1 h))
  · exact absurd (h.trans_le hy) (not_lt.2 (valueOf_nonneg magnitude))

/-- A number below the one that the ratio is rounded to is not the nearer of the two. -/
theorem add_value_le (hden : 0 < den) {y : Double}
    (h : y.value < valueOf (nearestMagnitude num den)) :
    valueOf (nearestMagnitude num den) + y.value ≤ 2 * (num / den : ℚ) ∧
      (valueOf (nearestMagnitude num den) + y.value = 2 * (num / den : ℚ) →
        nearestMagnitude num den % 2 = 0) := by
  cases hmagnitude : nearestMagnitude num den with
  | zero =>
      rw [hmagnitude] at h
      have hzero : valueOf 0 = 0 := by simp [valueOf]
      have hratio := ratio_nonneg num den
      exact ⟨by linarith, fun _ => rfl⟩
  | succ magnitude =>
      rw [hmagnitude] at h
      obtain ⟨hle, heven⟩ := middle_before_le hden hmagnitude
      have hy := value_le_valueOf h
      exact ⟨by linarith, fun htie => heven (le_antisymm hle (by linarith))⟩

/-- Nor is a number above. -/
theorem le_add_value (hden : 0 < den) {y : Double}
    (h : valueOf (nearestMagnitude num den) < y.value) :
    2 * (num / den : ℚ) ≤ valueOf (nearestMagnitude num den) + y.value ∧
      (valueOf (nearestMagnitude num den) + y.value = 2 * (num / den : ℚ) →
        nearestMagnitude num den % 2 = 0) := by
  obtain ⟨hle, heven⟩ := le_middle_next num hden
  have hy := valueOf_le_value h
  exact ⟨by linarith, fun htie => heven (le_antisymm hle (by linarith))⟩

/-- Ratios are rounded to a finite magnitude up to the overflow and not from there on: the
largest finite magnitude is odd. -/
theorem nearestMagnitude_lt_iff (num : Nat) (hden : 0 < den) :
    nearestMagnitude num den < infinityMagnitude ↔ (num / den : ℚ) < overflow := by
  have hoverflow := overflow_eq
  constructor
  · intro hfinite
    obtain ⟨hle, heven⟩ := le_middle_next num hden
    have hbelow : valueOf (nearestMagnitude num den) ≤ valueOf (infinityMagnitude - 1) :=
      valueOf_strictMono.monotone (Nat.le_sub_one_of_lt hfinite)
    have hnext : valueOf (nearestMagnitude num den + 1) ≤ valueOf infinityMagnitude :=
      valueOf_strictMono.monotone hfinite
    refine lt_of_le_of_ne (by linarith) fun htie => ?_
    have hlast : valueOf (nearestMagnitude num den) = valueOf (infinityMagnitude - 1) := by
      linarith
    have heven := heven (by linarith)
    rw [valueOf_strictMono.injective hlast] at heven
    revert heven
    decide
  · intro hlt
    by_contra hinfinite
    obtain ⟨magnitude, hmagnitude⟩ : ∃ magnitude, nearestMagnitude num den = magnitude + 1 :=
      Nat.exists_eq_succ_of_ne_zero fun hzero => hinfinite (hzero ▸ by decide)
    have hle := (middle_before_le hden hmagnitude).1
    have hbelow : valueOf (infinityMagnitude - 1) ≤ valueOf magnitude :=
      valueOf_strictMono.monotone (by omega)
    have hnext : valueOf infinityMagnitude ≤ valueOf (magnitude + 1) :=
      valueOf_strictMono.monotone (by omega)
    linarith

/-- A ratio is rounded to the nearest number. -/
theorem ofRatio_nearest (num : Nat) (hden : 0 < den) :
    Nearest (num / den : ℚ) (ofRatio num den) := by
  have hmagnitude :
      (ofRatio num den).magnitude = min (nearestMagnitude num den) infinityMagnitude := rfl
  have hvalue : (num / den : ℚ) < overflow →
      (ofRatio num den).magnitude = nearestMagnitude num den ∧
        (ofRatio num den).value = valueOf (nearestMagnitude num den) := by
    intro hlt
    have hfinite := (nearestMagnitude_lt_iff num hden).2 hlt
    have hsame : (ofRatio num den).magnitude = nearestMagnitude num den :=
      Nat.min_eq_left hfinite.le
    exact ⟨hsame, by rw [← hsame]; rfl⟩
  refine ⟨rfl, ?_, ?_, ?_, ?_⟩
  · intro hlt
    have hfinite := (nearestMagnitude_lt_iff num hden).2 hlt
    rw [isFinite, (hvalue hlt).1]
    exact decide_eq_true hfinite
  · intro hge
    have hinfinite : infinityMagnitude ≤ nearestMagnitude num den := by
      by_contra hfinite
      exact absurd ((nearestMagnitude_lt_iff num hden).1 (Nat.lt_of_not_le hfinite)) (not_lt.2 hge)
    rw [isInfinite, hmagnitude, Nat.min_eq_right hinfinite]
    exact beq_self_eq_true _
  · intro hlt y _
    rw [(hvalue hlt).2, abs_sub_le_iff]
    rcases lt_trichotomy y.value (valueOf (nearestMagnitude num den)) with hy | hy | hy
    · have hle := (add_value_le hden hy).1
      exact mul_nonpos_of_nonneg_of_nonpos (by linarith) (by linarith)
    · rw [hy, sub_self, zero_mul]
    · have hle := (le_add_value hden hy).1
      exact mul_nonpos_of_nonpos_of_nonneg (by linarith) (by linarith)
  · intro hlt y _ hne htie
    rw [(hvalue hlt).2] at hne htie
    rw [(hvalue hlt).1]
    have hmiddle := ((abs_sub_eq_iff _ _ _).1 htie).resolve_left hne.symm
    rcases lt_or_gt_of_ne hne with hy | hy
    · exact (add_value_le hden hy).2 hmiddle
    · exact (le_add_value hden hy).2 hmiddle

end OfRatio

end Double

end Lila
