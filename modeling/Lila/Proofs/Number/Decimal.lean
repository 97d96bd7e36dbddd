import Lila.Proofs.Number.Literal
import Lila.Proofs.Number.Nearest
import Mathlib.Data.Nat.Digits.Defs

/-! # The numbers that literals write

Digits write a rational number, place by place. It need not be a binary64 number, and then
a literal is read as the one nearest to it. This holds of every literal, however many
digits it has.
-/

namespace Lila.Literal

/-! ## Values of digits -/

def digit (c : Char) : Nat := c.toNat - '0'.toNat

/-- The number that digits before and behind a point write: place by place, each digit
counts ten times the next one. -/
def decimal (whole places : List Char) : ℚ :=
  Nat.ofDigits (10 : ℚ) (whole.reverse.map digit) +
    Nat.ofDigits (1 / 10 : ℚ) (0 :: places.map digit)

theorem ofDigits_eq (whole : List Char) :
    (ofDigits whole : ℚ) = Nat.ofDigits (10 : ℚ) (whole.reverse.map digit) := by
  have hfold : ofDigits whole = Nat.ofDigits 10 (whole.reverse.map digit) := by
    rw [Nat.ofDigits_eq_foldr, List.foldr_map, List.foldr_reverse]
    unfold ofDigits
    congr 1
    funext n c
    exact Nat.add_comm _ _
  rw [hfold, Nat.coe_ofDigits, Nat.cast_ofNat]

/-- Each place behind the point divides what has been read by ten. -/
theorem foldl_places (places : List Char) (n : Nat) :
    ((places.foldl (fun n c => 10 * n + digit c) n : Nat) : ℚ) / 10 ^ places.length =
      n + Nat.ofDigits (1 / 10 : ℚ) (0 :: places.map digit) := by
  induction places generalizing n with
  | nil => simp [Nat.ofDigits]
  | cons c places ih =>
      rw [List.foldl_cons, List.length_cons, pow_succ, ← div_div, ih]
      simp only [Nat.ofDigits, List.map_cons]
      push_cast
      ring

theorem ofDigits_append_div (whole places : List Char) :
    (ofDigits (whole ++ places) : ℚ) / 10 ^ places.length = decimal whole places := by
  rw [decimal, ← ofDigits_eq, ← foldl_places, ofDigits, List.foldl_append]
  rfl

/-- The number that a literal writes, with its digits before the point and those behind it. -/
def decimalOf (text : List Char) : ℚ :=
  decimal (text.takeWhile (· != '.')) (text.dropWhile (· != '.')).tail

theorem ne_point_of_digits {digits : List Char} (h : ∀ c ∈ digits, c.isDigit = true) :
    ∀ c ∈ digits, (c != '.') = true := by
  intro c hc
  refine bne_iff_ne.2 fun heq => ?_
  exact not_mem_of_digits h (heq ▸ hc)

theorem decimalOf_whole {whole : List Char} (hwhole : ∀ c ∈ whole, c.isDigit = true) :
    decimalOf whole = decimal whole [] := by
  have hplain := ne_point_of_digits hwhole
  have htake := takeWhile_run hplain (ends_nil _)
  have hdrop := dropWhile_run hplain (ends_nil _)
  rw [List.append_nil] at htake hdrop
  rw [decimalOf, htake, hdrop, List.tail_nil]

theorem decimalOf_fraction {whole : List Char} (hwhole : ∀ c ∈ whole, c.isDigit = true)
    (places : List Char) : decimalOf (whole ++ '.' :: places) = decimal whole places := by
  have hplain := ne_point_of_digits hwhole
  have hends : Ends (· != '.') ('.' :: places) := ends_cons.2 (by decide)
  rw [decimalOf, takeWhile_run hplain hends, dropWhile_run hplain hends, List.tail_cons]

/-! ## Rounding -/

/-- Digits write a number that `value?` rounds to the nearest one. -/
theorem exists_nearest_whole {whole : List Char} (hne : whole ≠ [])
    (hwhole : ∀ c ∈ whole, c.isDigit = true) :
    ∃ x, value? whole = some x ∧ x.Nearest (decimal whole []) := by
  have hnearest := Double.ofRatio_nearest (ofDigits whole) Nat.one_pos
  have hvalue := ofDigits_append_div whole []
  rw [List.append_nil, List.length_nil, pow_zero] at hvalue
  rw [Nat.cast_one, hvalue] at hnearest
  exact ⟨_, value?_whole hne hwhole, hnearest⟩

theorem exists_nearest_fraction {whole places : List Char} (hne : whole ≠ [])
    (hwhole : ∀ c ∈ whole, c.isDigit = true) (hne' : places ≠ [])
    (hplaces : ∀ c ∈ places, c.isDigit = true) :
    ∃ x, value? (whole ++ '.' :: places) = some x ∧
      x.Nearest (decimal whole places) := by
  have hpos : 0 < 10 ^ places.length := Nat.pow_pos (by omega)
  have hnearest := Double.ofRatio_nearest (ofDigits (whole ++ places)) hpos
  rw [Nat.cast_pow, Nat.cast_ofNat, ofDigits_append_div] at hnearest
  exact ⟨_, value?_fraction hne hwhole hne' hplaces, hnearest⟩

/-- A literal is read as the number nearest to what it writes. -/
theorem nearest_of_value? {text : List Char} {x : Double} (h : value? text = some x) :
    x.Nearest (decimalOf text) := by
  cases written_of_value? h with
  | whole hne hwhole =>
      obtain ⟨y, hy, hnearest⟩ := exists_nearest_whole hne hwhole
      cases hy.symm.trans h
      rwa [decimalOf_whole hwhole]
  | fraction hne hwhole hne' hplaces =>
      obtain ⟨y, hy, hnearest⟩ := exists_nearest_fraction hne hwhole hne' hplaces
      cases hy.symm.trans h
      rwa [decimalOf_fraction hwhole]

end Lila.Literal
