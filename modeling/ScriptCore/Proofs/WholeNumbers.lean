/-
Whole numbers print as themselves.

Up to `2 ^ 53` every whole number is exactly a number of the language (`exists_units`). So a whole
number that rounds to another one of these must be no neighbour of it: between the two there would
be a third that rounds there too, and it rounds to itself (`eq_or_of_roundsTo`). Only at the upper
end is there room for one more, as the next number after `2 ^ 53` is two away: `2 ^ 53 + 1` lies in
the middle and rounds down.

The printed decimal is on the coarsest grid, and a whole number is on the grid of the ones; so what
is printed is a whole number that rounds back. It could be `2 ^ 53 + 1` instead of `2 ^ 53` only on
the grid of the ones, where the closest is taken, since it is no multiple of ten.
-/
import ScriptCore.Proofs.ShortestDigits

set_option autoImplicit false

namespace ScriptCore

namespace Number

/-! ## Exact whole numbers -/

/-- A count of at most 53 bits is exact at every power of two. The induction is on the power: a
count that leaves a bit free is doubled, and another one stands as it is. -/
theorem exists_units (power : Nat) {s : Nat} (hs : s ≤ 2 ^ 53) :
    ∃ magnitude, magnitude ≤ power * 2 ^ 52 + 2 ^ 53 ∧ units magnitude = s * 2 ^ power := by
  induction power generalizing s with
  | zero =>
    have hunits : units (0 * 2 ^ 52 + s) = s * 2 ^ 0 := units_add hs (.inl rfl)
    exact ⟨0 * 2 ^ 52 + s, by omega, hunits⟩
  | succ power ih =>
    by_cases hfree : s < 2 ^ 52
    · have hlimit : power * 2 ^ 52 + 2 ^ 53 ≤ (power + 1) * 2 ^ 52 + 2 ^ 53 := by omega
      obtain ⟨magnitude, hle, hunits⟩ := ih (s := 2 * s) (by omega)
      refine ⟨magnitude, hle.trans hlimit, ?_⟩
      rw [hunits, pow_succ]
      ring
    · exact ⟨(power + 1) * 2 ^ 52 + s, by omega, units_add hs (.inr (by omega))⟩

theorem exists_exact {s : Nat} (hs : s ≤ 2 ^ 53) {k : Nat} (hk : k ≤ 1) :
    ∃ magnitude, magnitude < infiniteMagnitude ∧ exact magnitude = ((s * 2 ^ k : ℕ) : ℚ) := by
  obtain ⟨magnitude, hle, hunits⟩ := exists_units (unitPlaces + k) hs
  have hplaces : unitPlaces = 1074 := by unfold unitPlaces; rfl
  have hinfinite : infiniteMagnitude = 2047 * 2 ^ 52 := rfl
  refine ⟨magnitude, by omega, ?_⟩
  rw [exact_eq_units, hunits, pow_add]
  push_cast
  field_simp

/-- Up to `2 ^ 53` rounding keeps a whole number. -/
theorem exact_nearest {n : Nat} (hn : n ≤ 2 ^ 53) :
    nearest n 1 < infiniteMagnitude ∧ exact (nearest n 1) = n := by
  obtain ⟨magnitude, hlt, hexact⟩ := exists_exact hn (Nat.zero_le 1)
  rw [pow_zero, mul_one] at hexact
  have hround := roundsTo_nearest n Nat.one_pos
  rw [Nat.cast_one, div_one, ← hexact] at hround
  rw [hround.unique (roundsTo_exact hlt.le)]
  exact ⟨hlt, hexact⟩

/-! ## Whole numbers that round to one -/

variable {magnitude : Nat}

/-- Between a whole number and another one that rounds to it there is no exact one. -/
theorem eq_of_between {n m : Nat} (hexact : exact magnitude = n) (h : RoundsTo (m : ℚ) magnitude)
    {s k : Nat} (hs : s ≤ 2 ^ 53) (hk : k ≤ 1)
    (hbetween : m ≤ s * 2 ^ k ∧ s * 2 ^ k ≤ n ∨ n ≤ s * 2 ^ k ∧ s * 2 ^ k ≤ m) : s * 2 ^ k = n := by
  obtain ⟨other, hlt, hother⟩ := exists_exact hs hk
  have hself : RoundsTo (n : ℚ) magnitude := by
    rw [← hexact]
    exact roundsTo_exact h.1
  have hround : RoundsTo ((s * 2 ^ k : ℕ) : ℚ) magnitude := by
    rcases hbetween with ⟨hlow, hhigh⟩ | ⟨hlow, hhigh⟩
    · exact h.convex hself (by exact_mod_cast hlow) (by exact_mod_cast hhigh)
    · exact hself.convex h (by exact_mod_cast hlow) (by exact_mod_cast hhigh)
  -- What is exact rounds to itself.
  rw [← hother] at hround
  have hsame : other = magnitude := (roundsTo_exact hlt.le).unique hround
  rw [hsame, hexact] at hother
  exact_mod_cast hother.symm

/-- **A whole number up to `2 ^ 53` is the only one that rounds to it**, but for `2 ^ 53 + 1`. -/
theorem eq_or_of_roundsTo {n m : Nat} (hn : n ≤ 2 ^ 53) (hexact : exact magnitude = n)
    (h : RoundsTo (m : ℚ) magnitude) : m = n ∨ n = 2 ^ 53 ∧ m = 2 ^ 53 + 1 := by
  rcases Nat.lt_trichotomy m n with hless | heq | hmore
  · have hprevious := eq_of_between hexact h (s := n - 1) (k := 0) (by omega) (by omega) (by omega)
    omega
  · exact .inl heq
  · by_cases htop : n = 2 ^ 53
    · -- The next exact number is two away.
      by_cases hnext : m = 2 ^ 53 + 1
      · exact .inr ⟨htop, hnext⟩
      · have hsecond := eq_of_between hexact h (s := 2 ^ 52 + 1) (k := 1) (by omega) (by omega)
          (by omega)
        omega
    · have hnext := eq_of_between hexact h (s := n + 1) (k := 0) (by omega) (by omega) (by omega)
      omega

/-! ## What is printed -/

/-- On a grid of whole numbers, the decimal is one. -/
theorem point_of_le {grid : Nat} (hgrid : unitPlaces ≤ grid) (count : Nat) :
    point grid count = ((count * 10 ^ (grid - unitPlaces) : ℕ) : ℚ) := by
  obtain ⟨k, rfl⟩ := Nat.exists_eq_add_of_le hgrid
  rw [point, Nat.add_sub_cancel_left]
  push_cast
  rw [add_sub_cancel_left, zpow_natCast]

theorem point_ones (n : Nat) : point unitPlaces n = n := by
  rw [point_of_le (Nat.le_refl _), Nat.sub_self, pow_zero, mul_one]

/-- The coarsest grid of a whole number has whole numbers only, and the one it answers with is the
number. -/
theorem Coarsest.whole {n grid count : Nat} (h : Coarsest magnitude grid count) (hn : n ≤ 2 ^ 53)
    (hfinite : magnitude ≤ infiniteMagnitude) (hexact : exact magnitude = n) :
    unitPlaces ≤ grid ∧ count * 10 ^ (grid - unitPlaces) = n := by
  have hself : RoundsTo (point unitPlaces n) magnitude := by
    rw [point_ones, ← hexact]
    exact roundsTo_exact hfinite
  have hgrid : unitPlaces ≤ grid := by
    by_contra hfiner
    exact h.excluded unitPlaces n (Nat.lt_of_not_le hfiner) hself
  have hround := h.roundsTo
  rw [point_of_le hgrid] at hround
  refine ⟨hgrid, ?_⟩
  rcases eq_or_of_roundsTo hn hexact hround with heq | ⟨htop, hnext⟩
  · exact heq
  · -- There is one other candidate, at the upper end. Which grid it is on says why it is not taken.
    by_cases hones : grid = unitPlaces
    · -- On the grid of the ones the number itself is closer.
      subst hones
      have hclosest := onGrid?_closest hfinite h.answer hself
      rw [point_ones, point_ones, hexact, sub_self, abs_zero, abs_nonpos_iff, sub_eq_zero]
        at hclosest
      rw [Nat.sub_self, pow_zero, mul_one]
      exact_mod_cast hclosest
    · -- On a coarser one all are multiples of ten, and `2 ^ 53 + 1` ends in a three.
      obtain ⟨k, hk⟩ : ∃ k, grid - unitPlaces = k + 1 := ⟨grid - unitPlaces - 1, by omega⟩
      rw [hk, pow_succ, ← mul_assoc] at hnext
      omega

/-- **The shortest decimal of a whole number is itself.** -/
theorem shortest_eq {n : Nat} (hpos : 0 < n) (hn : n ≤ 2 ^ 53)
    (hfinite : magnitude < infiniteMagnitude) (hexact : exact magnitude = n) :
    shortest magnitude = ⟨n, 0⟩ := by
  have hmagnitude : 0 < magnitude := by
    have hlt : exact 0 < exact magnitude := by
      rw [exact_zero, hexact]
      exact_mod_cast hpos
    exact exact_strictMono.lt_iff_lt.1 hlt
  obtain ⟨grid, count, hshortest, hcoarsest⟩ := exists_coarsest hmagnitude hfinite
  obtain ⟨hgrid, hcount⟩ := hcoarsest.whole hn hfinite.le hexact
  rw [hshortest, decimalAt, Nat.pow_eq, hcount, Nat.sub_eq_zero_of_le hgrid]

/-! ## Integers -/

/-- The pattern of an integer: it stands for it, and of the two zeros it is the one without a
sign. -/
structure IsInt (x : Number) (n : ℤ) : Prop where
  finite : x.isFinite = true
  value : x.value = n
  zero : n = 0 → x.isNegative = false

namespace IsInt

variable {x : Number} {n : ℤ}

theorem isNegative (h : x.IsInt n) : x.isNegative = decide (n < 0) := by
  have hvalue := h.value
  have hexact : 0 ≤ exact x.magnitude := by
    rw [← exact_zero]
    exact exact_strictMono.monotone (Nat.zero_le _)
  unfold Number.value at hvalue
  rcases hsign : x.isNegative with _ | _
  · rw [hsign, if_neg Bool.false_ne_true] at hvalue
    rw [hvalue] at hexact
    have hn : 0 ≤ n := by exact_mod_cast hexact
    rw [decide_eq_false (by omega)]
  · rw [hsign, if_pos rfl] at hvalue
    have hn : n ≤ 0 := by
      have hcast : (n : ℚ) ≤ 0 := by linarith
      exact_mod_cast hcast
    have hne : n ≠ 0 := by
      intro hzero
      rw [h.zero hzero] at hsign
      cases hsign
    rw [decide_eq_true (by omega)]

theorem exact_eq (h : x.IsInt n) : exact x.magnitude = (n.natAbs : ℕ) := by
  have hvalue := h.value
  have hsign := h.isNegative
  unfold Number.value at hvalue
  by_cases hn : n < 0
  · rw [hsign, decide_eq_true hn, if_pos rfl] at hvalue
    rw [Nat.cast_natAbs, abs_of_neg hn]
    push_cast
    linarith
  · rw [hsign, decide_eq_false hn, if_neg Bool.false_ne_true] at hvalue
    rw [Nat.cast_natAbs, abs_of_nonneg (by omega)]
    exact hvalue

theorem unique {y : Number} (h : x.IsInt n) (h' : y.IsInt n) : x = y := by
  apply eq_of_magnitude
  · rw [h.isNegative, h'.isNegative]
  · apply exact_strictMono.injective
    rw [h.exact_eq, h'.exact_eq]

theorem shortest_magnitude (h : x.IsInt n) (hn : n.natAbs ≤ 2 ^ 53) :
    shortest x.magnitude = ⟨n.natAbs, 0⟩ := by
  have hfinite := magnitude_lt_of_isFinite h.finite
  have hexact := h.exact_eq
  by_cases hzero : n.natAbs = 0
  · rw [hzero, Nat.cast_zero, ← exact_zero] at hexact
    rw [exact_strictMono.injective hexact, hzero]
    rfl
  · exact shortest_eq (by omega) hn hfinite hexact

/-- The text is the sign and the digits, and nothing else. -/
theorem toList_text (h : x.IsInt n) (hn : n.natAbs ≤ 2 ^ 53) :
    (Value.number x).text.toList =
      (if n < 0 then ['-'] else []) ++ Nat.toDigits 10 n.natAbs := by
  have htext : (Value.number x).text.toList = x.numeral.chars :=
    Number.toList_text h.finite .printed
  rw [htext, numeral, Decimal.chars_numeral, h.shortest_magnitude hn, h.isNegative]
  simp only [decide_eq_true_eq, Decimal.toChars, if_true]

end IsInt

/-- So is the usual text of an integer. -/
theorem toList_toString (n : ℤ) :
    (toString n).toList = (if n < 0 then ['-'] else []) ++ Nat.toDigits 10 n.natAbs := by
  rcases n with m | m
  · have hm : ¬ Int.ofNat m < 0 := Int.not_lt.2 (Int.natCast_nonneg m)
    rw [if_neg hm]
    exact String.toList_ofList
  · rw [if_pos (by omega), Int.toString_eq_repr, Int.repr, String.toList_append]
    exact congrArg ('-' :: ·) String.toList_ofList

section OfMagnitude

variable {negative : Bool} (hmagnitude : magnitude < 2 ^ 63)

include hmagnitude

theorem toNat_bits_ofMagnitude :
    (ofMagnitude negative magnitude).bits.toNat = (if negative then 2 ^ 63 else 0) + magnitude := by
  unfold ofMagnitude
  rw [UInt64.toNat_ofNat', Nat.pow_eq, Nat.mod_eq_of_lt]
  split <;> omega

theorem isNegative_ofMagnitude : (ofMagnitude negative magnitude).isNegative = negative := by
  unfold isNegative
  rw [toNat_bits_ofMagnitude hmagnitude, Nat.pow_eq]
  rcases negative with _ | _
  · exact decide_eq_false (by rw [if_neg Bool.false_ne_true]; omega)
  · exact decide_eq_true (by rw [if_pos rfl]; omega)

theorem magnitude_ofMagnitude : (ofMagnitude negative magnitude).magnitude = magnitude := by
  rw [Number.magnitude, toNat_bits_ofMagnitude hmagnitude, Nat.pow_eq]
  split <;> omega

end OfMagnitude

/-- The number made of an integer is its pattern. -/
theorem isInt_ofInt {n : ℤ} (hn : n.natAbs ≤ 2 ^ 53) : (ofInt n).IsInt n := by
  obtain ⟨hfinite, hexact⟩ := exact_nearest hn
  have hinfinite : infiniteMagnitude = 2047 * 2 ^ 52 := rfl
  have hbound : nearest n.natAbs 1 < 2 ^ 63 := by omega
  have hmagnitude : (ofInt n).magnitude = nearest n.natAbs 1 := magnitude_ofMagnitude hbound
  have hsign : (ofInt n).isNegative = decide (n < 0) := isNegative_ofMagnitude hbound
  refine ⟨?_, ?_, ?_⟩
  · rw [isFinite, hmagnitude]
    exact decide_eq_true hfinite
  · rw [value, hmagnitude, hsign, hexact, Nat.cast_natAbs]
    by_cases hneg : n < 0
    · rw [decide_eq_true hneg, if_pos rfl, abs_of_neg hneg]
      push_cast
      ring
    · rw [decide_eq_false hneg, if_neg Bool.false_ne_true, abs_of_nonneg (by omega)]
  · rintro rfl
    rw [hsign]
    rfl

/-- **Whole numbers print as themselves.** Each integer from `-2 ^ 53` to `2 ^ 53` has exactly one
pattern, if zero is taken without a sign, and what is printed for it is the usual text of the
integer: a minus sign if it is negative, then its digits, and nothing behind them. -/
theorem whole_numbers_print_as_themselves (n : ℤ) (hn : |n| ≤ 2 ^ 53) :
    (∀ x : Number, x.IsInt n ↔ x = ofInt n) ∧
      (Value.number (ofInt n)).text = toString n ∧
      (Value.number (ofInt n)).text.toList =
        (if n < 0 then ['-'] else []) ++ Nat.toDigits 10 n.natAbs := by
  have habs : n.natAbs ≤ 2 ^ 53 := by
    rw [Int.abs_eq_natAbs] at hn
    omega
  have hint := isInt_ofInt habs
  have hchars := hint.toList_text habs
  refine ⟨?_, ?_, hchars⟩
  · intro x
    constructor
    · intro hx
      exact hx.unique hint
    · rintro rfl
      exact hint
  · apply String.toList_inj.1
    rw [hchars, toList_toString]

/-- At the ends the whole number after the last rounds to it, and still is not what is printed. -/
theorem whole_numbers_print_as_themselves_end :
    |(-2 ^ 53 : ℤ)| ≤ 2 ^ 53 ∧ |(0 : ℤ)| ≤ 2 ^ 53 ∧ ofInt (-2 ^ 53 - 1) = ofInt (-2 ^ 53) ∧
      (Value.number ⟨0xc340000000000000⟩).text = "-9007199254740992" ∧
      (Value.number ⟨0⟩).text = "0" := by
  have hend : |(-2 ^ 53 : ℤ)| ≤ 2 ^ 53 := by decide
  have hzero : |(0 : ℤ)| ≤ 2 ^ 53 := by decide
  have hpattern : ofInt (-2 ^ 53) = ⟨0xc340000000000000⟩ := by decide +kernel
  have hpattern' : ofInt 0 = ⟨0⟩ := by decide +kernel
  have htext := (whole_numbers_print_as_themselves (-2 ^ 53) hend).2.1
  have htext' := (whole_numbers_print_as_themselves 0 hzero).2.1
  rw [hpattern] at htext
  rw [hpattern'] at htext'
  refine ⟨hend, hzero, by decide +kernel, htext.trans ?_, htext'⟩
  decide +kernel

end Number

end ScriptCore
