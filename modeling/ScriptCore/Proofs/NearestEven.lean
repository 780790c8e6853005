/-
Rounding to the nearest magnitude, said without an algorithm.

`Number.nearest` scales, divides and rounds once. What it is meant to compute needs none of that: a
magnitude stands for a rational number (`exact`), and of all magnitudes the nearest one is taken,
the even one of two that are equally near (`RoundsTo`). The pattern of infinity takes part in the
comparison as `2 ^ 1024`, the first power of two that no finite number reaches; so what is a little
too large still rounds to the largest finite number, and from halfway on it rounds to infinity.

The link between the two is that the next pattern is the next number: within a power of two the
pattern grows by one for each step of the significand, and at the power the carry moves the exponent
(`units_add`). So the two candidates of the division are the two magnitudes around the number
(`exact_candidates`), and the parity of the quotient is the parity of the pattern.
-/
import Mathlib.Tactic.FieldSimp
import Mathlib.Tactic.Linarith
import Mathlib.Tactic.Positivity
import Mathlib.Tactic.Ring
import Mathlib.Algebra.Order.Field.Power
import Mathlib.Data.Rat.Cast.Order
import ScriptCore.Number.Rounding

set_option autoImplicit false

namespace ScriptCore

namespace Number

/-! ## Magnitudes as numbers -/

/-- The number a magnitude stands for. With exponent field zero the fraction is taken as it is,
otherwise a leading one stands before it. -/
def exact (magnitude : Nat) : ℚ :=
  let exponent : Nat := magnitude / 2 ^ 52
  let fraction : ℚ := ((magnitude % 2 ^ 52 : Nat) : ℚ) / 2 ^ 52
  if exponent = 0 then fraction * (2 : ℚ) ^ (-1022 : ℤ)
  else (1 + fraction) * (2 : ℚ) ^ ((exponent : ℤ) - 1023)

/-- The exact value is the count of units. -/
theorem exact_eq_units (magnitude : Nat) :
    exact magnitude = (units magnitude : ℚ) / 2 ^ unitPlaces := by
  have hunit : (2 : ℚ) ^ (-1022 : ℤ) = 2 ^ 52 / 2 ^ unitPlaces := by
    have hplaces : (-1022 : ℤ) = (52 : ℕ) - (unitPlaces : ℕ) := by
      unfold unitPlaces
      norm_num
    rw [hplaces, zpow_sub₀ two_ne_zero, zpow_natCast, zpow_natCast]
  unfold exact units
  simp only [Nat.pow_eq]
  generalize magnitude / 2 ^ 52 = exponent
  generalize magnitude % 2 ^ 52 = fraction
  by_cases h : exponent = 0
  · rw [if_pos h, if_pos h, hunit]
    field_simp
  · obtain ⟨shift, rfl⟩ := Nat.exists_eq_succ_of_ne_zero h
    have hexponent : ((shift.succ : ℕ) : ℤ) - 1023 = (shift : ℤ) + (-1022) := by
      push_cast
      ring
    rw [if_neg h, if_neg h, hexponent, zpow_add₀ two_ne_zero, hunit, zpow_natCast]
    push_cast
    field_simp
    norm_num

/-- A significand and its shift are put together by an addition, also where the significand has
just been rounded up to the next power of two. -/
theorem units_add {shift s : Nat} (hs : s ≤ 2 ^ 53) (h : shift = 0 ∨ 2 ^ 52 ≤ s) :
    units (shift * 2 ^ 52 + s) = s * 2 ^ shift := by
  unfold units
  simp only [Nat.pow_eq]
  by_cases hsmall : s < 2 ^ 52
  · -- A subnormal: the exponent field is zero and the fraction is the count.
    obtain rfl : shift = 0 := by omega
    rw [if_pos (by omega)]
    omega
  · by_cases hcarry : s = 2 ^ 53
    · -- The carry: the fraction is zero and the exponent field one larger.
      have hdiv : (shift * 2 ^ 52 + s) / 2 ^ 52 = shift + 2 := by omega
      have hmod : (shift * 2 ^ 52 + s) % 2 ^ 52 = 0 := by omega
      have hnext : shift + 2 - 1 = shift + 1 := by omega
      rw [hdiv, hmod, if_neg (by omega), hcarry, Nat.add_zero, hnext, pow_succ 2 shift]
      ring
    · have hdiv : (shift * 2 ^ 52 + s) / 2 ^ 52 = shift + 1 := by omega
      have hmod : (shift * 2 ^ 52 + s) % 2 ^ 52 = s - 2 ^ 52 := by omega
      rw [hdiv, hmod, if_neg (by omega), Nat.add_sub_cancel, Nat.add_sub_cancel' (by omega)]

/-- Every magnitude is a significand and a shift. -/
theorem exists_shift (magnitude : Nat) :
    ∃ shift s, magnitude = shift * 2 ^ 52 + s ∧ s < 2 ^ 53 ∧ (shift = 0 ∨ 2 ^ 52 ≤ s) := by
  by_cases h : magnitude < 2 ^ 52
  · exact ⟨0, magnitude, by omega, by omega, .inl rfl⟩
  · exact ⟨magnitude / 2 ^ 52 - 1, magnitude % 2 ^ 52 + 2 ^ 52, by omega, by omega, .inr (by omega)⟩

/-- The next pattern is the next number. -/
theorem units_strictMono : StrictMono units := by
  apply strictMono_nat_of_lt_succ
  intro magnitude
  obtain ⟨shift, s, rfl, hs, h⟩ := exists_shift magnitude
  have hnext : shift = 0 ∨ 2 ^ 52 ≤ s + 1 := by omega
  rw [units_add (by omega) h, Nat.add_assoc, units_add (by omega) hnext]
  exact Nat.mul_lt_mul_of_pos_right (Nat.lt_succ_self s) (Nat.two_pow_pos shift)

theorem exact_strictMono : StrictMono exact := by
  intro first second h
  rw [exact_eq_units, exact_eq_units]
  have hunits : (units first : ℚ) < units second := by exact_mod_cast units_strictMono h
  gcongr

/-! ## The nearest magnitude -/

/-- Of all magnitudes up to infinity, none is nearer to the number, and if another one is as near,
the given one is even. -/
def RoundsTo (q : ℚ) (magnitude : Nat) : Prop :=
  magnitude ≤ infiniteMagnitude ∧
    ∀ other, other ≤ infiniteMagnitude → other ≠ magnitude →
      |exact magnitude - q| < |exact other - q| ∨
        |exact magnitude - q| = |exact other - q| ∧ magnitude % 2 = 0

/-- Beyond infinity, infinity is the nearest. -/
theorem roundsTo_infinite {q : ℚ} (h : exact infiniteMagnitude ≤ q) :
    RoundsTo q infiniteMagnitude := by
  refine ⟨le_refl _, fun other hother hne => .inl ?_⟩
  have hlt := exact_strictMono (lt_of_le_of_ne hother hne)
  rw [abs_of_nonpos (by linarith), abs_of_nonpos (by linarith)]
  linarith

/-- Seen from between two neighbours, all other magnitudes lie behind one of them. -/
theorem distance_between {lower : Nat} {q : ℚ} (hlow : exact lower ≤ q)
    (hhigh : q < exact (lower + 1)) (other : Nat) (h : other ≠ lower) (h' : other ≠ lower + 1) :
    min (q - exact lower) (exact (lower + 1) - q) < |exact other - q| := by
  by_cases hother : other < lower
  · have hlt := exact_strictMono hother
    rw [abs_of_nonpos (by linarith)]
    exact lt_of_le_of_lt (min_le_left _ _) (by linarith)
  · have hlt := exact_strictMono (show lower + 1 < other by omega)
    rw [abs_of_nonneg (by linarith)]
    exact lt_of_le_of_lt (min_le_right _ _) (by linarith)

/-- A number between two neighbours rounds to the nearer one of them, and to the even one if it is
in the middle. -/
theorem roundsTo_of_between {lower magnitude : Nat} {q : ℚ} (hlow : exact lower ≤ q)
    (hhigh : q < exact (lower + 1)) (hfinite : lower < infiniteMagnitude)
    (h : q - exact lower < exact (lower + 1) - q ∧ magnitude = lower ∨
      exact (lower + 1) - q < q - exact lower ∧ magnitude = lower + 1 ∨
      q - exact lower = exact (lower + 1) - q ∧ magnitude = lower + lower % 2) :
    RoundsTo q magnitude := by
  have hdown : |exact lower - q| = q - exact lower := by
    rw [abs_of_nonpos (by linarith)]
    ring
  have hup : |exact (lower + 1) - q| = exact (lower + 1) - q := abs_of_nonneg (by linarith)
  have hmagnitude : magnitude = lower ∨ magnitude = lower + 1 := by omega
  refine ⟨by omega, fun other _ hne => ?_⟩
  by_cases hother : other = lower ∨ other = lower + 1
  · -- The two neighbours are compared with each other; only in the middle are they equally near.
    rcases h with ⟨hlt, rfl⟩ | ⟨hlt, rfl⟩ | ⟨heq, heven⟩
    · obtain rfl : other = magnitude + 1 := by omega
      rw [hdown, hup]
      exact .inl hlt
    · obtain rfl : other = lower := by omega
      rw [hdown, hup]
      exact .inl hlt
    · right
      have hparity : magnitude % 2 = 0 := by omega
      rcases hmagnitude with rfl | rfl <;> rcases hother with rfl | rfl
      · exact absurd rfl hne
      · exact ⟨by rw [hdown, hup, heq], hparity⟩
      · exact ⟨by rw [hdown, hup, heq], hparity⟩
      · exact absurd rfl hne
  · rw [not_or] at hother
    have hfar := distance_between hlow hhigh other hother.1 hother.2
    left
    rcases h with ⟨hlt, rfl⟩ | ⟨hlt, rfl⟩ | ⟨heq, -⟩
    · rwa [min_eq_left hlt.le, ← hdown] at hfar
    · rwa [min_eq_right hlt.le, ← hup] at hfar
    · rw [heq, min_self] at hfar
      rcases hmagnitude with rfl | rfl
      · rwa [hdown, heq]
      · rwa [hup]

/-- A number rounds to one magnitude. Two that are both even have a third one between them, which
would be nearer than either. -/
theorem RoundsTo.unique {q : ℚ} {first second : Nat} (h : RoundsTo q first)
    (h' : RoundsTo q second) : first = second := by
  -- The two come in either order, and the argument does not care which is smaller.
  wlog hlt : first < second generalizing first second
  · by_contra hne
    exact hne (this h' h (by omega)).symm
  exfalso
  have hfirst := h.2 second h'.1 (by omega)
  have hsecond := h'.2 first h.1 (by omega)
  have heq : |exact first - q| = |exact second - q| := by
    rcases hfirst with hfirst | ⟨hfirst, -⟩
    · rcases hsecond with hsecond | ⟨hsecond, -⟩
      · exact absurd hfirst hsecond.not_gt
      · exact hsecond.symm
    · exact hfirst
  have heven : first % 2 = 0 ∧ second % 2 = 0 := by
    rw [heq] at hfirst hsecond
    exact ⟨(hfirst.resolve_left (lt_irrefl _)).2, (hsecond.resolve_left (lt_irrefl _)).2⟩
  have hmiddle : first + 1 < second := by omega
  have hnear := h.2 (first + 1) (by have := h'.1; omega) (by omega)
  have hlow := exact_strictMono (Nat.lt_succ_self first)
  have hhigh := exact_strictMono hmiddle
  -- Equally far from two numbers is halfway between them, and what lies between them is nearer.
  have hhalf : q - exact first = exact second - q := by
    rcases abs_eq_abs.1 heq with hsame | hopposite
    · linarith
    · linarith
  have hfar : |exact first - q| = q - exact first := by
    rw [abs_of_nonpos (by linarith)]
    ring
  have hless : |exact (first + 1) - q| < |exact first - q| := by
    rw [hfar, abs_lt]
    constructor <;> linarith
  rcases hnear with hnear | ⟨hnear, -⟩
  · exact absurd hless hnear.not_gt
  · exact absurd hnear hless.ne'

/-! ## The division finds it -/

/-- The shift leaves a significand of at most 53 bits, and of no less unless there is no shift. -/
theorem significand_bounds (n : Nat) :
    n / 2 ^ (n.log2 - 52) < 2 ^ 53 ∧ (n.log2 - 52 = 0 ∨ 2 ^ 52 ≤ n / 2 ^ (n.log2 - 52)) := by
  by_cases h0 : n = 0
  · subst h0
    exact ⟨by decide, .inl (by decide)⟩
  have hlow : 2 ^ n.log2 ≤ n := Nat.log2_self_le h0
  have hhigh : n < 2 ^ (n.log2 + 1) := Nat.lt_log2_self
  generalize n.log2 = bits at hlow hhigh
  have hpos : 0 < 2 ^ (bits - 52) := Nat.two_pow_pos _
  by_cases hbits : bits ≤ 52
  · have hle : 2 ^ (bits + 1) ≤ 2 ^ 53 := Nat.pow_le_pow_right (by omega) (by omega)
    rw [Nat.sub_eq_zero_of_le hbits, Nat.pow_zero, Nat.div_one]
    exact ⟨by omega, .inl rfl⟩
  · obtain ⟨shift, rfl⟩ : ∃ shift, bits = shift + 52 := ⟨bits - 52, by omega⟩
    rw [Nat.add_sub_cancel] at hpos ⊢
    refine ⟨(Nat.div_lt_iff_lt_mul hpos).2 ?_, .inr ((Nat.le_div_iff_mul_le hpos).2 ?_)⟩
    · calc n < 2 ^ (shift + 52 + 1) := hhigh
        _ = 2 ^ 53 * 2 ^ shift := by ring
    · calc 2 ^ 52 * 2 ^ shift = 2 ^ (shift + 52) := by ring
        _ ≤ n := hlow

/-- The two candidates of the division are neighbouring patterns, and the remainder tells how far
the ratio is from either. -/
theorem exact_candidates {num den shift whole rest : Nat} (hden : 0 < den)
    (hdiv : den * 2 ^ shift * whole + rest = num * 2 ^ unitPlaces) (hbits : whole < 2 ^ 53)
    (hshift : shift = 0 ∨ 2 ^ 52 ≤ whole) :
    (num : ℚ) / den - exact (shift * 2 ^ 52 + whole) = (rest : ℤ) / (den * 2 ^ unitPlaces) ∧
      exact (shift * 2 ^ 52 + whole + 1) - (num : ℚ) / den =
        ((den * 2 ^ shift - rest : ℤ) : ℚ) / (den * 2 ^ unitPlaces) := by
  have hdenq : (0 : ℚ) < den := by exact_mod_cast hden
  have hratio : (num : ℚ) * 2 ^ unitPlaces = den * 2 ^ shift * whole + rest := by
    exact_mod_cast hdiv.symm
  have hlow : exact (shift * 2 ^ 52 + whole) = (whole * 2 ^ shift : ℚ) / 2 ^ unitPlaces := by
    rw [exact_eq_units, units_add (by omega) hshift]
    push_cast
    rfl
  have hhigh : exact (shift * 2 ^ 52 + whole + 1) =
      ((whole + 1) * 2 ^ shift : ℚ) / 2 ^ unitPlaces := by
    rw [exact_eq_units, Nat.add_assoc, units_add (by omega) (by omega)]
    push_cast
    rfl
  constructor
  · rw [hlow]
    field_simp
    push_cast
    linarith
  · rw [hhigh]
    field_simp
    push_cast
    linarith

/-- The three ways a quotient is rounded, by the remainder. -/
theorem roundQuotient_cases (a b : Nat) :
    2 * (a % b) < b ∧ roundQuotient a b = a / b ∨
      b < 2 * (a % b) ∧ roundQuotient a b = a / b + 1 ∨
      2 * (a % b) = b ∧ roundQuotient a b = a / b + a / b % 2 := by
  unfold roundQuotient
  by_cases hless : 2 * (a % b) < b
  · exact .inl ⟨hless, if_pos hless⟩
  · by_cases hmore : b < 2 * (a % b)
    · exact .inr (.inl ⟨hmore, by rw [if_neg hless, if_pos hmore]⟩)
    · exact .inr (.inr ⟨by omega, by rw [if_neg hless, if_neg hmore]⟩)

/-- **Rounding is correct.** `nearest` gives the magnitude nearest to the ratio, the even one of
two. -/
theorem roundsTo_nearest (num : Nat) {den : Nat} (hden : 0 < den) :
    RoundsTo ((num : ℚ) / den) (nearest num den) := by
  unfold nearest
  simp only [Nat.pow_eq]
  obtain ⟨hbits, hshift⟩ := significand_bounds (num * 2 ^ unitPlaces / den)
  rw [Nat.div_div_eq_div_mul] at hbits hshift
  generalize (num * 2 ^ unitPlaces / den).log2 - 52 = shift at *
  have hdiv := Nat.div_add_mod (num * 2 ^ unitPlaces) (den * 2 ^ shift)
  have hrest : num * 2 ^ unitPlaces % (den * 2 ^ shift) < den * 2 ^ shift :=
    Nat.mod_lt _ (Nat.mul_pos hden (Nat.two_pow_pos shift))
  have hround := roundQuotient_cases (num * 2 ^ unitPlaces) (den * 2 ^ shift)
  generalize num * 2 ^ unitPlaces / (den * 2 ^ shift) = whole at *
  generalize num * 2 ^ unitPlaces % (den * 2 ^ shift) = rest at *
  generalize roundQuotient (num * 2 ^ unitPlaces) (den * 2 ^ shift) = rounded at *
  obtain ⟨hdown, hup⟩ := exact_candidates hden hdiv hbits hshift
  have hscale : (0 : ℚ) < den * 2 ^ unitPlaces := by positivity
  have hlow : exact (shift * 2 ^ 52 + whole) ≤ (num : ℚ) / den := by
    rw [← sub_nonneg, hdown]
    positivity
  by_cases hfinite : shift * 2 ^ 52 + whole < infiniteMagnitude
  · have hhigh : (num : ℚ) / den < exact (shift * 2 ^ 52 + whole + 1) := by
      have hpos : (0 : ℤ) < den * 2 ^ shift - rest := by
        have hrestInt : (rest : ℤ) < den * 2 ^ shift := by exact_mod_cast hrest
        omega
      rw [← sub_pos, hup]
      positivity
    have hsum : min (shift * 2 ^ 52 + rounded) infiniteMagnitude = shift * 2 ^ 52 + rounded :=
      Nat.min_eq_left (by omega)
    rw [hsum]
    apply roundsTo_of_between hlow hhigh hfinite
    -- What is left is the comparison of the remainder with half the divisor.
    have hcast : (den * 2 ^ shift : ℤ) = ((den * 2 ^ shift : ℕ) : ℤ) := by push_cast; rfl
    rw [hdown, hup, div_lt_div_iff_of_pos_right hscale, div_lt_div_iff_of_pos_right hscale,
      div_left_inj' hscale.ne', Int.cast_lt, Int.cast_lt, Int.cast_inj, hcast]
    clear hdown hup hlow hhigh hscale hdiv hbits hshift hcast hsum hfinite
    generalize den * 2 ^ shift = divisor at *
    rcases hround with ⟨hless, rfl⟩ | ⟨hmore, rfl⟩ | ⟨hhalf, rfl⟩
    · exact .inl ⟨by omega, rfl⟩
    · exact .inr (.inl ⟨by omega, (Nat.add_assoc _ _ _).symm⟩)
    · exact .inr (.inr ⟨by omega, by omega⟩)
  · -- Both candidates are infinite or beyond, and infinity is what is left of them.
    have hbeyond : infiniteMagnitude ≤ shift * 2 ^ 52 + whole := Nat.le_of_not_lt hfinite
    have hwhole : whole ≤ rounded := by omega
    rw [Nat.min_eq_right (le_trans hbeyond (Nat.add_le_add_left hwhole _))]
    apply roundsTo_infinite
    exact le_trans (exact_strictMono.monotone hbeyond) hlow

end Number

end ScriptCore
