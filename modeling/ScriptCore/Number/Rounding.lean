/-
Correct rounding: the binary64 magnitude nearest to a ratio of two naturals, a half going to the
even neighbour.

The ratio is counted in units of `2 ^ -unitPlaces`, scaled down by the power of two that leaves at
most 53 bits before the point, and rounded once. The magnitude is then read off without cases:
with `shift` as that power, a significand `m` in `[2 ^ 52, 2 ^ 53)` has the pattern
`shift * 2 ^ 52 + m`, a subnormal is the same formula at shift `0`, and a significand that rounds
up to `2 ^ 53` carries into the exponent field by the plain addition.

`nearest_units` says that rounding an exact value changes nothing, and `nearest_mul_mul` that the
ratio may be written in any terms.
-/
import ScriptCore.Number.Basic

set_option autoImplicit false

namespace ScriptCore

/-- The quotient `a / b` rounded to the nearest natural, a half to the even one. -/
def roundQuotient (a b : Nat) : Nat :=
  let whole := a / b
  let rest := a % b
  if 2 * rest < b then whole else if b < 2 * rest then whole + 1 else whole + whole % 2

/-- An exact quotient is its own rounding. -/
theorem roundQuotient_mul_right (a b : Nat) (hb : 0 < b) : roundQuotient (a * b) b = a := by
  simp [roundQuotient, Nat.mul_div_cancel a hb, hb]

/-- Rounding depends on the ratio alone. -/
theorem roundQuotient_mul_mul (a b k : Nat) (hk : 0 < k) :
    roundQuotient (a * k) (b * k) = roundQuotient a b := by
  have hdiv : a * k / (b * k) = a / b := Nat.mul_div_mul_right a b hk
  have hmod : a * k % (b * k) = a % b * k := Nat.mul_mod_mul_right k a b
  have hless : 2 * (a % b * k) < b * k ↔ 2 * (a % b) < b := by
    rw [← Nat.mul_assoc, Nat.mul_lt_mul_right hk]
  have hmore : b * k < 2 * (a % b * k) ↔ b < 2 * (a % b) := by
    rw [← Nat.mul_assoc, Nat.mul_lt_mul_right hk]
  simp only [roundQuotient, hdiv, hmod, hless, hmore]

namespace Number

/-- The magnitude nearest to `num / den`; beyond the largest finite number it is infinite. -/
def nearest (num den : Nat) : Nat :=
  let scaled := num * Nat.pow 2 unitPlaces
  let shift := (scaled / den).log2 - 52
  min (shift * Nat.pow 2 52 + roundQuotient scaled (den * Nat.pow 2 shift)) infiniteMagnitude

/-- The nearest magnitude depends on the ratio alone. -/
theorem nearest_mul_mul (num den k : Nat) (hk : 0 < k) :
    nearest (num * k) (den * k) = nearest num den := by
  have hscaled : num * k * Nat.pow 2 unitPlaces = num * Nat.pow 2 unitPlaces * k :=
    Nat.mul_right_comm _ _ _
  have hden : ∀ shift, den * k * Nat.pow 2 shift = den * Nat.pow 2 shift * k := fun _ =>
    Nat.mul_right_comm _ _ _
  simp only [nearest, hscaled, hden, Nat.mul_div_mul_right _ _ hk, roundQuotient_mul_mul _ _ _ hk]

/-- The leading bit of a normal number stands 52 places above its shift. -/
theorem log2_normal {fraction shift : Nat} (hf : fraction < Nat.pow 2 52) :
    ((Nat.pow 2 52 + fraction) * Nat.pow 2 shift).log2 = shift + 52 := by
  rw [Nat.pow_eq] at hf
  rw [Nat.pow_eq, Nat.pow_eq]
  have hpos : 0 < 2 ^ shift := Nat.two_pow_pos shift
  have hlow : 2 ^ (shift + 52) = 2 ^ 52 * 2 ^ shift := by rw [Nat.pow_add, Nat.mul_comm]
  have hhigh : 2 ^ (shift + 52 + 1) = 2 ^ 53 * 2 ^ shift := by
    rw [Nat.add_assoc, Nat.pow_add, Nat.mul_comm]
  rw [Nat.log2_eq_iff (Nat.ne_of_gt (Nat.mul_pos (by omega) hpos)), hlow, hhigh]
  exact ⟨Nat.mul_le_mul_right _ (by omega), Nat.mul_lt_mul_of_pos_right (by omega) hpos⟩

/-- Rounding gives every finite magnitude back from its exact value. -/
theorem nearest_units {magnitude : Nat} (h : magnitude ≤ infiniteMagnitude) :
    nearest (units magnitude) (Nat.pow 2 unitPlaces) = magnitude := by
  have hpow : 0 < 2 ^ unitPlaces := Nat.two_pow_pos unitPlaces
  have hsplit := Nat.div_add_mod magnitude (2 ^ 52)
  have hf : magnitude % 2 ^ 52 < 2 ^ 52 := Nat.mod_lt _ (by omega)
  simp only [nearest, units, infiniteMagnitude, Nat.pow_eq, Nat.mul_div_cancel _ hpow] at h ⊢
  generalize magnitude / 2 ^ 52 = exponent at *
  generalize magnitude % 2 ^ 52 = fraction at *
  generalize 2 ^ unitPlaces = one at *
  cases exponent with
  | zero =>
    -- Subnormal: the fraction counts units, and nothing is shifted out.
    have hlog : fraction.log2 - 52 = 0 := by
      have := @Nat.log2_lt fraction 52
      by_cases h0 : fraction = 0
      · simp [h0]
      · have := (this h0).2 hf
        omega
    simp only [if_pos, hlog, Nat.pow_zero, Nat.mul_one, roundQuotient_mul_right _ _ hpow]
    omega
  | succ shift =>
    have hlog := @log2_normal fraction shift hf
    rw [Nat.pow_eq, Nat.pow_eq] at hlog
    have hround : roundQuotient ((2 ^ 52 + fraction) * 2 ^ shift * one) (one * 2 ^ shift)
        = 2 ^ 52 + fraction := by
      rw [Nat.mul_assoc, Nat.mul_comm (2 ^ shift) one]
      exact roundQuotient_mul_right _ _ (Nat.mul_pos hpow (Nat.two_pow_pos shift))
    simp only [if_neg (Nat.succ_ne_zero shift), Nat.add_sub_cancel, hlog, hround]
    omega

/-- The number nearest to an integer, exact up to `2 ^ 53` in absolute value. -/
def ofInt (n : Int) : Number := ofMagnitude (decide (n < 0)) (nearest n.natAbs 1)

end Number

end ScriptCore
