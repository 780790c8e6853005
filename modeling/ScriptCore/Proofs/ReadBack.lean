/-
The text of a number reads back as the number.

A numeral is a sign, digits, and perhaps a point with more digits behind it; what it denotes is the
rational number that its digits spell, and reading it as a number is rounding that (`RoundsTo`).
The text of a finite number is a numeral without a superfluous zero at either end, and it reads back
as that number and no other, down to the sign of a zero. So no two finite numbers share a text.

The zeros at the end are a matter of the search for digits. It refines its grid until a multiple
reads back. A multiple that ends in a zero lies on the coarser grid as well, next to the number
there too, and the search would have ended at that grid.
-/
import ScriptCore.Proofs.NearestEven
import ScriptCore.Value

set_option autoImplicit false

namespace ScriptCore

namespace Number

/-! ## The search leaves no zero behind -/

/-- A number of `b` bits has no more digits than the coarsest grid allows for. -/
theorem two_pow_le_ten_pow (b : Nat) : 2 ^ b ≤ 10 ^ (28 * b / 93 + 1) := by
  have hrest : ∀ r, r < 93 → 2 ^ r ≤ 10 ^ (28 * r / 93 + 1) := by decide
  have hr := hrest (b % 93) (Nat.mod_lt _ (by omega))
  have hb : b = 93 * (b / 93) + b % 93 := by omega
  have hexp : 28 * b / 93 + 1 = 28 * (b / 93) + (28 * (b % 93) / 93 + 1) := by omega
  have hstep : (2 ^ 93) ^ (b / 93) ≤ (10 ^ 28) ^ (b / 93) :=
    Nat.pow_le_pow_left (by norm_num) _
  calc 2 ^ b = (2 ^ 93) ^ (b / 93) * 2 ^ (b % 93) := by
        rw [← Nat.pow_mul, ← Nat.pow_add, ← hb]
    _ ≤ (10 ^ 28) ^ (b / 93) * 10 ^ (28 * (b % 93) / 93 + 1) := Nat.mul_le_mul hstep hr
    _ = 10 ^ (28 * b / 93 + 1) := by rw [← Nat.pow_mul, ← Nat.pow_add, ← hexp]

/-- The search starts at a grid coarser than the number. -/
theorem expansion_lt_coarsest (magnitude : Nat) :
    expansion magnitude < 10 ^ coarsest magnitude :=
  Nat.lt_of_lt_of_le Nat.lt_log2_self (two_pow_le_ten_pow _)

/-- A grid answers with one of the two multiples around the number. -/
theorem count_of_onGrid? {magnitude grid count : Nat} (h : onGrid? magnitude grid = some count) :
    count = expansion magnitude / 10 ^ grid ∨ count = expansion magnitude / 10 ^ grid + 1 := by
  unfold onGrid? at h
  simp only [Nat.pow_eq] at h
  split_ifs at h
  · exact .inl (Option.some.inj h).symm
  · exact .inr (Option.some.inj h).symm

/-- A grid answers if one of the two multiples reads back. -/
theorem onGrid?_ne_none {magnitude grid count : Nat} (hread : readsBack magnitude grid count = true)
    (h : count = expansion magnitude / 10 ^ grid ∨ count = expansion magnitude / 10 ^ grid + 1) :
    onGrid? magnitude grid ≠ none := by
  intro hnone
  unfold onGrid? at hnone
  simp only [Nat.pow_eq] at hnone
  split_ifs at hnone with hlower hupper
  rcases h with rfl | rfl
  · -- The lower multiple reads back and was passed over for the upper one.
    simp only [hread, Bool.true_and, Bool.or_eq_true, Bool.not_eq_true', not_or] at hlower
    exact hupper (Bool.eq_true_of_not_eq_false hlower.1)
  · exact hupper hread

/-- Ten multiples of one grid are one of the next. -/
theorem readsBack_ten_mul (magnitude grid count : Nat) :
    readsBack magnitude grid (10 * count) = readsBack magnitude (grid + 1) count := by
  have hcount : 10 * count * Nat.pow 10 grid = count * Nat.pow 10 (grid + 1) := by
    simp only [Nat.pow_eq, Nat.pow_succ]
    ring
  rw [readsBack, readsBack, hcount]

/-- Where a grid answers with a multiple of ten, the next coarser one has an answer too. -/
theorem onGrid?_succ_ne_none {magnitude grid count : Nat}
    (h : onGrid? magnitude grid = some count) (hten : count % 10 = 0) :
    onGrid? magnitude (grid + 1) ≠ none := by
  obtain ⟨tens, rfl⟩ : ∃ tens, count = 10 * tens := ⟨count / 10, by omega⟩
  have hread := readsBack_of_onGrid? h
  rw [readsBack_ten_mul] at hread
  have hcoarser : expansion magnitude / 10 ^ (grid + 1) = expansion magnitude / 10 ^ grid / 10 := by
    rw [Nat.pow_succ, Nat.div_div_eq_div_mul]
  have hcount := count_of_onGrid? h
  exact onGrid?_ne_none hread (by omega)

/-- The finest grid answers with the number itself. -/
theorem onGrid?_zero {magnitude : Nat} (h : magnitude ≤ infiniteMagnitude) :
    onGrid? magnitude 0 = some (expansion magnitude) := by
  unfold onGrid?
  simp [Nat.pow_eq, readsBack_expansion h, Nat.mod_one]

/-- Below a grid that has no answer, the search ends with a multiple that is none of ten. -/
theorem search_eq {magnitude grid : Nat} (hfinite : magnitude ≤ infiniteMagnitude)
    (h : onGrid? magnitude (grid + 1) = none) :
    ∃ reached count, search magnitude grid = decimalAt reached count ∧ count % 10 ≠ 0 := by
  induction grid with
  | zero =>
    refine ⟨0, expansion magnitude, rfl, ?_⟩
    intro hten
    exact onGrid?_succ_ne_none (onGrid?_zero hfinite) hten h
  | succ grid ih =>
    rw [search]
    rcases hcount : onGrid? magnitude (grid + 1) with _ | count
    · exact ih hcount
    · refine ⟨grid + 1, count, rfl, ?_⟩
      intro hten
      exact onGrid?_succ_ne_none hcount hten h

/-- Zero reads back as zero only. -/
theorem eq_zero_of_readsBack {magnitude grid : Nat} (h : readsBack magnitude grid 0 = true) :
    magnitude = 0 := by
  rw [readsBack_iff] at h
  rw [← h]
  simp [nearest, roundQuotient]

/-- **No zero at the end.** If the decimal of a number has places, its last digit is not zero. -/
theorem shortest_last_digit {magnitude : Nat} (hfinite : magnitude ≤ infiniteMagnitude)
    (hplaces : (shortest magnitude).places ≠ 0) : (shortest magnitude).coefficient % 10 ≠ 0 := by
  have hdecimal : ∃ grid count, shortest magnitude = decimalAt grid count ∧ count % 10 ≠ 0 := by
    unfold shortest at hplaces ⊢
    by_cases h0 : magnitude = 0
    · rw [if_pos h0] at hplaces
      exact absurd rfl hplaces
    · rw [if_neg h0]
      have hcoarse := expansion_lt_coarsest magnitude
      obtain ⟨grid, hgrid⟩ : ∃ grid, coarsest magnitude = grid + 1 := ⟨_, rfl⟩
      rw [hgrid] at hcoarse ⊢
      rw [search]
      rcases hcount : onGrid? magnitude (grid + 1) with _ | count
      · exact search_eq hfinite hcount
      · -- Only the first multiple is left: the number is smaller than that, and not zero.
        refine ⟨grid + 1, count, rfl, ?_⟩
        have hcases := count_of_onGrid? hcount
        rw [Nat.div_eq_of_lt hcoarse] at hcases
        rcases hcases with rfl | rfl
        · exact absurd (eq_zero_of_readsBack (readsBack_of_onGrid? hcount)) h0
        · omega
  obtain ⟨grid, count, heq, hten⟩ := hdecimal
  rw [heq] at hplaces ⊢
  unfold decimalAt at hplaces ⊢
  have hpad : grid - unitPlaces = 0 := by
    simp only at hplaces
    omega
  simpa only [hpad, Nat.pow_eq, Nat.pow_zero, Nat.mul_one] using hten

end Number

/-! ## Numerals -/

/-- A sign, the digits before the point, and the digits behind it. -/
structure Numeral where
  negative : Bool
  whole : List Char
  fraction : List Char

namespace Numeral

/-- The numeral as it is written. The point is there if there are digits behind it. -/
def chars (n : Numeral) : List Char :=
  (if n.negative then ['-'] else []) ++ n.whole ++
    (if n.fraction = [] then [] else '.' :: n.fraction)

/-- The numeral that a text is read as: a minus sign, then digits up to the first character that is
none, and behind that one the rest. -/
def ofChars (cs : List Char) : Numeral :=
  let body := if cs.head? = some '-' then cs.tail else cs
  ⟨decide (cs.head? = some '-'), body.takeWhile Char.isDigit, (body.dropWhile Char.isDigit).tail⟩

/-- There is a digit before the point, and no zero that could be left out: none in front of other
digits, and none at the end of the fraction. -/
structure Canonical (n : Numeral) : Prop where
  whole_digits : ∀ c ∈ n.whole, c.isDigit = true
  fraction_digits : ∀ c ∈ n.fraction, c.isDigit = true
  whole_ne_nil : n.whole ≠ []
  leading : n.whole.head? = some '0' → n.whole = ['0']
  trailing : n.fraction.getLast? ≠ some '0'

/-- The number that the digits spell, without the sign. -/
def amount (n : Numeral) : ℚ :=
  (Nat.ofDigitChars 10 n.whole 0 : ℚ) +
    (Nat.ofDigitChars 10 n.fraction 0 : ℚ) / 10 ^ n.fraction.length

/-- Rounding to nearest-even gives this number. The sign is that of the numeral, also for zero. -/
def RoundsTo (n : Numeral) (x : Number) : Prop :=
  x.isNegative = n.negative ∧ Number.RoundsTo n.amount x.magnitude

/-- A canonical numeral is read as what was written. -/
theorem ofChars_chars {n : Numeral} (h : n.Canonical) : ofChars n.chars = n := by
  obtain ⟨negative, whole, fraction⟩ := n
  obtain ⟨hwhole, -, hne, -, -⟩ := h
  obtain ⟨first, rest, rfl⟩ := List.exists_cons_of_ne_nil hne
  have hfirst : some first ≠ some '-' := by
    rintro ⟨⟩
    exact absurd (hwhole '-' List.mem_cons_self) (by decide)
  -- Behind the digits there is nothing, or a point and the fraction.
  obtain ⟨tail, htail, hdigits, hfraction⟩ : ∃ tail,
      (if fraction = [] then [] else '.' :: fraction) = tail ∧
        (tail.takeWhile Char.isDigit = [] ∧ tail.dropWhile Char.isDigit = tail) ∧
        tail.tail = fraction := by
    by_cases hnil : fraction = []
    · exact ⟨[], if_pos hnil, ⟨rfl, rfl⟩, hnil.symm⟩
    · exact ⟨'.' :: fraction, if_neg hnil, ⟨rfl, rfl⟩, rfl⟩
  have htake : (first :: rest ++ tail).takeWhile Char.isDigit = first :: rest := by
    rw [List.takeWhile_append_of_pos hwhole, hdigits.1, List.append_nil]
  have hdrop : (first :: rest ++ tail).dropWhile Char.isDigit = tail := by
    rw [List.dropWhile_append_of_pos hwhole, hdigits.2]
  rw [chars, ofChars, htail]
  rcases negative with _ | _
  · have hhead : (first :: rest ++ tail).head? ≠ some '-' := hfirst
    simp only [Bool.false_eq_true, if_false, List.nil_append, hhead, decide_false, htake, hdrop,
      hfraction]
  · have hhead : (['-'] ++ first :: rest ++ tail).head? = some '-' := rfl
    have hbody : (['-'] ++ first :: rest ++ tail).tail = first :: rest ++ tail := rfl
    simp only [if_true, hhead, hbody, decide_true, htake, hdrop, hfraction]

end Numeral

/-! ## The digits of a decimal -/

theorem head?_toDigits_ne_zero {n : Nat} (hn : 0 < n) : (Nat.toDigits 10 n).head? ≠ some '0' := by
  induction n using Nat.strong_induction_on with
  | _ n ih =>
    rw [Nat.toDigits_eq_if (by omega)]
    by_cases hsmall : n < 10
    · rw [if_pos hsmall, List.head?_cons, ne_eq, Option.some.injEq, Nat.digitChar_eq_zero]
      omega
    · -- The first digit is that of the number without its last one.
      rw [if_neg hsmall, List.head?_append_of_ne_nil _ Nat.toDigits_ne_nil]
      exact ih (n / 10) (by omega) (by omega)

theorem getLast?_toDigits (n : Nat) :
    (Nat.toDigits 10 n).getLast? = some (Nat.digitChar (n % 10)) := by
  rw [Nat.toDigits_eq_if (by omega)]
  by_cases hsmall : n < 10
  · rw [if_pos hsmall, Nat.mod_eq_of_lt hsmall]
    rfl
  · rw [if_neg hsmall, List.getLast?_append]
    rfl

section Padded

variable {width n : Nat}

theorem isDigit_of_mem_paddedDigits {c : Char} (h : c ∈ paddedDigits width n) :
    c.isDigit = true := by
  unfold paddedDigits at h
  rcases List.mem_append.1 h with hzero | hdigit
  · rw [List.eq_of_mem_replicate hzero]
    rfl
  · exact Nat.isDigit_of_mem_toDigits (by omega) (by omega) hdigit

theorem getLast?_paddedDigits (width n : Nat) :
    (paddedDigits width n).getLast? = some (Nat.digitChar (n % 10)) := by
  unfold paddedDigits
  rw [List.getLast?_append, getLast?_toDigits]
  rfl

theorem ofDigitChars_paddedDigits (width n : Nat) :
    Nat.ofDigitChars 10 (paddedDigits width n) 0 = n := by
  unfold paddedDigits
  rw [Nat.ofDigitChars_append, Nat.ofDigitChars_replicate_zero, Nat.mul_zero,
    Nat.ofDigitChars_ten_toDigits]

theorem length_paddedDigits (hwidth : 0 < width) (hn : n < 10 ^ width) :
    (paddedDigits width n).length = width := by
  have hle := (Nat.length_toDigits_le_iff (by omega) hwidth).2 hn
  unfold paddedDigits
  rw [List.length_append, List.length_replicate]
  omega

end Padded

namespace Decimal

/-- The numeral of a decimal. -/
def numeral (d : Decimal) (negative : Bool) : Numeral where
  negative := negative
  whole := Nat.toDigits 10 (d.coefficient / 10 ^ d.places)
  fraction :=
    if d.places = 0 then [] else paddedDigits d.places (d.coefficient % 10 ^ d.places)

variable (d : Decimal) (negative : Bool)

theorem chars_numeral :
    (d.numeral negative).chars = (if negative then ['-'] else []) ++ d.toChars := by
  unfold numeral Numeral.chars toChars
  by_cases hplaces : d.places = 0
  · simp [hplaces]
  · have hne : paddedDigits d.places (d.coefficient % 10 ^ d.places) ≠ [] := by
      intro hnil
      have hlast := getLast?_paddedDigits d.places (d.coefficient % 10 ^ d.places)
      rw [hnil] at hlast
      cases hlast
    simp only [if_neg hplaces, if_neg hne, Nat.pow_eq, List.append_assoc]

theorem canonical_numeral (h : d.places ≠ 0 → d.coefficient % 10 ≠ 0) :
    (d.numeral negative).Canonical := by
  unfold numeral
  refine ⟨?_, ?_, Nat.toDigits_ne_nil, ?_, ?_⟩
  · intro c hc
    exact Nat.isDigit_of_mem_toDigits (by omega) (by omega) hc
  · intro c hc
    by_cases hplaces : d.places = 0
    · simp [hplaces] at hc
    · simp only [if_neg hplaces] at hc
      exact isDigit_of_mem_paddedDigits hc
  · intro hzero
    by_cases hwhole : 0 < d.coefficient / 10 ^ d.places
    · exact absurd hzero (head?_toDigits_ne_zero hwhole)
    · simp only [Nat.eq_zero_of_not_pos hwhole, Nat.toDigits_zero]
  · by_cases hplaces : d.places = 0
    · simp [hplaces]
    · -- The last digit of the fraction is the last one of the coefficient.
      have hdvd : 10 ∣ 10 ^ d.places := dvd_pow_self 10 hplaces
      simp only [if_neg hplaces, getLast?_paddedDigits, Nat.mod_mod_of_dvd _ hdvd, ne_eq,
        Option.some.injEq, Nat.digitChar_eq_zero]
      exact h hplaces

theorem amount_numeral :
    (d.numeral negative).amount = (d.coefficient : ℚ) / 10 ^ d.places := by
  unfold numeral Numeral.amount
  by_cases hplaces : d.places = 0
  · simp [hplaces]
  · have hrest : d.coefficient % 10 ^ d.places < 10 ^ d.places :=
      Nat.mod_lt _ (Nat.pow_pos (by omega))
    have hsplit : (d.coefficient : ℚ) = 10 ^ d.places * (d.coefficient / 10 ^ d.places : ℕ) +
        (d.coefficient % 10 ^ d.places : ℕ) := by
      exact_mod_cast (Nat.div_add_mod d.coefficient (10 ^ d.places)).symm
    simp only [if_neg hplaces, Nat.ofDigitChars_ten_toDigits, ofDigitChars_paddedDigits,
      length_paddedDigits (Nat.pos_of_ne_zero hplaces) hrest]
    rw [eq_div_iff (by positivity), hsplit]
    field_simp

end Decimal

/-! ## The text of a number -/

namespace Number

/-- Sign and magnitude are all there is to a number. -/
theorem eq_of_magnitude {x y : Number} (hsign : x.isNegative = y.isNegative)
    (hmagnitude : x.magnitude = y.magnitude) : x = y := by
  have hx : x.bits.toNat < 2 ^ 64 := x.bits.toNat_lt
  have hy : y.bits.toNat < 2 ^ 64 := y.bits.toNat_lt
  unfold isNegative at hsign
  unfold magnitude at hmagnitude
  simp only [Nat.pow_eq, decide_eq_decide] at hsign hmagnitude
  have hbits : x.bits.toNat = y.bits.toNat := by omega
  obtain ⟨x⟩ := x
  obtain ⟨y⟩ := y
  exact congrArg Number.mk (UInt64.toNat_inj.1 hbits)

/-- The sign bit is the topmost of the pattern. -/
theorem isNegative_eq_testBit (x : Number) : x.isNegative = x.bits.toNat.testBit 63 := by
  have hx : x.bits.toNat < 2 ^ 64 := x.bits.toNat_lt
  unfold isNegative
  rw [Nat.testBit_eq_decide_div_mod_eq, decide_eq_decide, Nat.pow_eq]
  omega

/-- The numeral that a finite number is written as. -/
def numeral (x : Number) : Numeral := (shortest x.magnitude).numeral x.isNegative

section Finite

variable {x y : Number} (hx : x.isFinite = true)

include hx

theorem magnitude_lt_of_isFinite : x.magnitude < infiniteMagnitude := of_decide_eq_true hx

/-- However numbers that are not finite are spelled, a finite one is written as its numeral. -/
theorem toList_text (spelling : NumberSpelling) :
    (x.text spelling).toList = x.numeral.chars := by
  have hlt := magnitude_lt_of_isFinite hx
  have hnan : x.isNaN = false := decide_eq_false (Nat.lt_asymm hlt)
  have hinfinite : x.isInfinite = false := beq_eq_false_iff_ne.2 (Nat.ne_of_lt hlt)
  unfold text numeral
  rw [hnan, hinfinite, Decimal.chars_numeral]
  simp [finiteChars, signChars]

theorem canonical_numeral : x.numeral.Canonical :=
  Decimal.canonical_numeral _ _ (shortest_last_digit (magnitude_lt_of_isFinite hx).le)

/-- **A number reads back.** The numeral of a finite number rounds to that number, and to no
other. -/
theorem numeral_roundsTo_iff (y : Number) : x.numeral.RoundsTo y ↔ y = x := by
  have hround : RoundsTo x.numeral.amount x.magnitude := by
    have hnearest := roundsTo_nearest (shortest x.magnitude).coefficient
      (show 0 < Nat.pow 10 (shortest x.magnitude).places from Nat.pow_pos (by omega))
    rw [nearest_shortest (magnitude_lt_of_isFinite hx).le] at hnearest
    unfold numeral
    rw [Decimal.amount_numeral]
    simpa only [Nat.pow_eq, Nat.cast_pow, Nat.cast_ofNat] using hnearest
  constructor
  · rintro ⟨hsign, hmagnitude⟩
    exact eq_of_magnitude hsign (hmagnitude.unique hround)
  · rintro rfl
    exact ⟨rfl, hround⟩

/-- No two finite numbers are written alike. -/
theorem text_injective (hy : y.isFinite = true) {spelling spelling' : NumberSpelling}
    (h : y.text spelling = x.text spelling') : y = x := by
  have hchars : y.numeral.chars = x.numeral.chars := by
    rw [← toList_text hy spelling, h, toList_text hx]
  have hnumeral : y.numeral = x.numeral := by
    rw [← Numeral.ofChars_chars (canonical_numeral hy), hchars,
      Numeral.ofChars_chars (canonical_numeral hx)]
  exact (numeral_roundsTo_iff hx y).1 (hnumeral ▸ (numeral_roundsTo_iff hy y).2 rfl)

end Finite

/-- **Printed numbers read back exactly.** The text of a finite number is a numeral without a zero
that could be left out. It has a minus sign exactly if the sign bit is set. What it denotes rounds
to this number and to no other, bit for bit, and no other finite number has the same text. -/
theorem printed_reads_back (x : Number) (hx : x.isFinite = true) :
    (Numeral.ofChars (Value.number x).text.toList).chars = (Value.number x).text.toList ∧
      (Numeral.ofChars (Value.number x).text.toList).Canonical ∧
      (Numeral.ofChars (Value.number x).text.toList).negative = x.bits.toNat.testBit 63 ∧
      (∀ y, (Numeral.ofChars (Value.number x).text.toList).RoundsTo y ↔ y = x) ∧
      ∀ y, y.isFinite = true → (Value.number y).text = (Value.number x).text → y = x := by
  have htext : (Value.number x).text.toList = x.numeral.chars := toList_text hx .printed
  have hcanonical := canonical_numeral hx
  rw [htext, Numeral.ofChars_chars hcanonical]
  refine ⟨rfl, hcanonical, isNegative_eq_testBit x, numeral_roundsTo_iff hx, ?_⟩
  intro y hy h
  exact text_injective hx hy h

/-- A power of two, written with fewer digits than it has: what is written is another number, and
still rounds to this one alone. -/
theorem printed_reads_back_power :
    (⟨0xC3B0000000000000⟩ : Number).isFinite = true ∧
      (Value.number ⟨0xC3B0000000000000⟩).text = "-1152921504606847000" ∧
      ∀ y, (Numeral.ofChars "-1152921504606847000".toList).RoundsTo y ↔
        y = ⟨0xC3B0000000000000⟩ := by
  have hfinite : (⟨0xC3B0000000000000⟩ : Number).isFinite = true := by decide
  have htext : (Value.number ⟨0xC3B0000000000000⟩).text = "-1152921504606847000" := by
    decide +kernel
  have hread := (printed_reads_back _ hfinite).2.2.2.1
  rw [htext] at hread
  exact ⟨hfinite, htext, hread⟩

end Number

end ScriptCore
