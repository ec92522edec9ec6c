import Fallback.Equality
import Mathlib.Tactic.Ring

/-!
What numbers are worth.

A number in the 64-bit binary format is a whole number of units of `2 ^ lowestExponent`, or it is
infinite. `Value.worth?` gives every number that is one its worth in such units, integers and truth
values included, and two numbers are equal just when they are worth the same (`equalNumbers_iff`).
That the format writes each worth in one way only, zero apart, is `Binary64.Written.unique`.
-/
namespace Fallback

namespace Binary64

/-! ## The written form of a magnitude -/

/-- The pattern `b` without its sign stands for `m` times two to the power of `k`, in units. Below
the normal range `k` is zero; in it, the mantissa has its leading bit. -/
structure Written (b m k : Nat) : Prop where
  pattern : b = k * 2 ^ 52 + m
  below : m < 2 ^ 53
  leading : 0 < k → 2 ^ 52 ≤ m

/-- A larger exponent makes the number too large for a mantissa. -/
theorem Written.exponent_le {b b' m m' k k' : Nat} (h : Written b m k) (h' : Written b' m' k')
    (same : m * 2 ^ k = m' * 2 ^ k') : k' ≤ k := by
  by_contra less
  obtain ⟨d, rfl⟩ : ∃ d, k' = k + (d + 1) := ⟨k' - k - 1, by omega⟩
  have cancelled : m = m' * 2 ^ (d + 1) := by
    have : m * 2 ^ k = m' * 2 ^ (d + 1) * 2 ^ k := by rw [same, Nat.pow_add]; ring
    exact Nat.eq_of_mul_eq_mul_right (Nat.two_pow_pos k) this
  have large : 2 ^ 52 * 2 ≤ m' * 2 ^ (d + 1) :=
    Nat.mul_le_mul (h'.leading (by omega)) (Nat.le_self_pow (by omega) 2)
  have := h.below
  omega

/-- A worth is written in one way only. -/
theorem Written.unique {b b' m m' k k' : Nat} (h : Written b m k) (h' : Written b' m' k')
    (same : m * 2 ^ k = m' * 2 ^ k') : b = b' := by
  obtain rfl : k = k' := Nat.le_antisymm (h'.exponent_le h same.symm) (h.exponent_le h' same)
  obtain rfl : m = m' := Nat.eq_of_mul_eq_mul_right (Nat.two_pow_pos k) same
  rw [h.pattern, h'.pattern]

/-- A finite magnitude is written with a mantissa and an exponent. -/
theorem magnitude_cases (x : Binary64) :
    x.magnitude = .infinite ∧ x.magnitudeBits ≠ 0 ∨
      ∃ m k : Nat, x.magnitude = .finite m (lowestExponent + k) ∧ Written x.magnitudeBits m k := by
  have split := Nat.div_add_mod' x.magnitudeBits (2 ^ 52)
  have rest := Nat.mod_lt x.magnitudeBits (Nat.two_pow_pos 52)
  simp only [magnitude, Nat.pow_eq]
  split_ifs with infinite low
  · exact .inl ⟨rfl, by simp only [infinityBits] at infinite; omega⟩
  · exact .inr ⟨x.magnitudeBits, 0, by simp, ⟨by simp, by omega, by simp⟩⟩
  · exact .inr ⟨2 ^ 52 + x.magnitudeBits % 2 ^ 52, x.magnitudeBits / 2 ^ 52 - 1, rfl,
      ⟨by omega, by omega, by omega⟩⟩

theorem Written.eq_zero_iff {b m k : Nat} (h : Written b m k) : b = 0 ↔ m = 0 := by
  have ⟨pattern, _, leading⟩ := h
  omega

/-! ## Units -/

/-- The mantissa of the number with the sign of the number. -/
def signed (x : Binary64) (m : Nat) : Int :=
  if x.isNegative then -(m : Int) else m

theorem natAbs_signed (x : Binary64) (m : Nat) : (x.signed m).natAbs = m := by
  unfold signed
  split <;> simp

/-- The number in units, if it is finite. -/
def units? (x : Binary64) : Option Int :=
  match x.magnitude with
  | .infinite => none
  | .finite m q => some (x.signed m * 2 ^ (q - lowestExponent).toNat)

/-- How many units one is. -/
def unitsOfOne : Int :=
  2 ^ (-lowestExponent).toNat

theorem unitsOfOne_ne_zero : unitsOfOne ≠ 0 :=
  pow_ne_zero _ two_ne_zero

theorem units?_of_infinite {x : Binary64} (h : x.magnitude = .infinite) : x.units? = none := by
  rw [units?, h]

theorem units?_of_finite {x : Binary64} {m k : Nat}
    (h : x.magnitude = .finite m (lowestExponent + k)) :
    x.units? = some (x.signed m * 2 ^ k) := by
  rw [units?, h]
  simp

/-- A number is an integer just when it has as many units. -/
theorem equalsInt_iff (x : Binary64) (n : Int) :
    x.equalsInt n = true ↔ x.units? = some (n * unitsOfOne) := by
  obtain ⟨infinite, -⟩ | ⟨m, k, finite, -⟩ := x.magnitude_cases
  · simp [equalsInt, units?, infinite]
  · have compared : x.equalsInt n =
        if 0 ≤ lowestExponent + k then
          decide (x.signed m * 2 ^ (lowestExponent + k).toNat = n)
        else decide (x.signed m = n * 2 ^ (-(lowestExponent + k)).toNat) := by
      rw [equalsInt, finite]
      rfl
    have two : (2 : Int) ≠ 0 := two_ne_zero
    rw [units?_of_finite finite, Option.some.injEq, compared, unitsOfOne]
    split
    · next whole =>
      have exponents : k = (lowestExponent + k).toNat + (-lowestExponent).toNat := by
        simp only [lowestExponent] at whole ⊢
        omega
      conv_rhs => rw [exponents, pow_add, ← mul_assoc]
      rw [mul_left_inj' (pow_ne_zero _ two), decide_eq_true_iff]
    · next broken =>
      have exponents : (-lowestExponent).toNat = (-(lowestExponent + k)).toNat + k := by
        simp only [lowestExponent] at broken ⊢
        omega
      conv_rhs => rw [exponents, pow_add, ← mul_assoc]
      rw [mul_left_inj' (pow_ne_zero _ two), decide_eq_true_iff]

/-- A number is its sign and its pattern without the sign. -/
theorem ext_magnitudeBits {x y : Binary64} (sign : x.isNegative = y.isNegative)
    (magnitude : x.magnitudeBits = y.magnitudeBits) : x = y := by
  have below := x.bits.toNat_lt
  have below' := y.bits.toNat_lt
  have sign := decide_eq_decide.mp sign
  simp only [magnitudeBits, signBit] at sign magnitude
  have : x.bits.toNat = y.bits.toNat := by omega
  cases x
  cases y
  exact congrArg Binary64.mk (UInt64.toNat_inj.mp this)

theorem equals_eq_true_iff (x y : Binary64) :
    x.equals y = true ↔ x = y ∨ x.magnitudeBits = 0 ∧ y.magnitudeBits = 0 := by
  have patterns : x.bits = y.bits ↔ x = y := by
    cases x
    cases y
    simp
  simp [equals, isZero, patterns]

/-- Finite numbers of the same number of units are the same, unless they are the two zeros. -/
theorem eq_or_zero_of_units {x y : Binary64} {m k m' k' : Nat}
    (hx : Written x.magnitudeBits m k) (hy : Written y.magnitudeBits m' k')
    (same : x.signed m * 2 ^ k = y.signed m' * 2 ^ k') :
    x = y ∨ x.magnitudeBits = 0 ∧ y.magnitudeBits = 0 := by
  have worth : m * 2 ^ k = m' * 2 ^ k' := by
    simpa [Int.natAbs_mul, natAbs_signed, Int.natAbs_pow] using congrArg Int.natAbs same
  have patterns := hx.unique hy worth
  by_cases zero : m = 0
  · exact .inr ⟨hx.eq_zero_iff.mpr zero, by rw [← patterns, hx.eq_zero_iff.mpr zero]⟩
  · refine .inl (ext_magnitudeBits ?_ patterns)
    have some : 0 < m * 2 ^ k := Nat.mul_pos (Nat.pos_of_ne_zero zero) (Nat.two_pow_pos k)
    have same : (if x.isNegative then -((m * 2 ^ k : Nat) : Int) else (m * 2 ^ k : Nat)) =
        if y.isNegative then -((m * 2 ^ k : Nat) : Int) else (m * 2 ^ k : Nat) := by
      conv_rhs => rw [worth]
      simpa [signed, ite_mul] using same
    split_ifs at same with negative negative' negative'
    · rw [negative, negative']
    · omega
    · omega
    · rw [Bool.eq_false_of_not_eq_true negative, Bool.eq_false_of_not_eq_true negative']

/-! ## Worth -/

/-- What a number is worth: a finite one its units, an infinite one itself. -/
def worth (x : Binary64) : Int ⊕ Binary64 :=
  match x.units? with
  | some units => .inl units
  | none => .inr x

/-- Two numbers in the format are equal just when they are worth the same. -/
theorem equals_iff (x y : Binary64) : x.equals y = true ↔ x.worth = y.worth := by
  rw [equals_eq_true_iff]
  constructor
  · rintro (rfl | ⟨zero, zero'⟩)
    · rfl
    · obtain ⟨-, nonzero⟩ | ⟨m, k, finite, written⟩ := x.magnitude_cases
      · exact absurd zero nonzero
      · obtain ⟨-, nonzero⟩ | ⟨m', k', finite', written'⟩ := y.magnitude_cases
        · exact absurd zero' nonzero
        · obtain rfl := written.eq_zero_iff.mp zero
          obtain rfl := written'.eq_zero_iff.mp zero'
          simp [worth, units?_of_finite finite, units?_of_finite finite', signed]
  · intro same
    obtain ⟨infinite, -⟩ | ⟨m, k, finite, written⟩ := x.magnitude_cases <;>
      obtain ⟨infinite', -⟩ | ⟨m', k', finite', written'⟩ := y.magnitude_cases
    · simp only [worth, units?_of_infinite infinite, units?_of_infinite infinite'] at same
      exact .inl (Sum.inr.inj same)
    · simp [worth, units?_of_infinite infinite, units?_of_finite finite'] at same
    · simp [worth, units?_of_finite finite, units?_of_infinite infinite'] at same
    · simp only [worth, units?_of_finite finite, units?_of_finite finite'] at same
      exact eq_or_zero_of_units written written' (Sum.inl.inj same)

/-- A number in the format is an integer just when it is worth as many units. -/
theorem equalsInt_iff_worth (x : Binary64) (n : Int) :
    x.equalsInt n = true ↔ x.worth = .inl (n * unitsOfOne) := by
  rw [equalsInt_iff, worth]
  cases x.units? <;> simp

end Binary64

/-- What a value is worth as a number, if it is one. -/
def Value.worth? (v : Value) : Option (Int ⊕ Binary64) :=
  match v.int? with
  | some n => some (.inl (n * Binary64.unitsOfOne))
  | none =>
    match v with
    | .float x _ => some x.worth
    | _ => none

/-- Values are equal as numbers when they are numbers and worth the same. -/
theorem equalNumbers_iff (v w : Value) :
    equalNumbers v w = true ↔ v.worth?.isSome ∧ v.worth? = w.worth? := by
  have one := Binary64.unitsOfOne_ne_zero
  unfold equalNumbers Value.worth?
  rcases hv : v.int? with _ | m <;> rcases hw : w.int? with _ | n
  · cases v <;> cases w <;> simp [Binary64.equals_iff]
  · cases v <;> simp [Binary64.equalsInt_iff_worth]
  · cases w <;> simp [Binary64.equalsInt_iff_worth, eq_comm (a := Sum.inl _)]
  · simp [mul_left_inj' one]

end Fallback
