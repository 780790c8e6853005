/-
The text of a value, said without the functions that write it.

For most values the text is in the rule (`Value.Prints`). A finite number is written as a numeral,
and which one is said by demands on it alone (`Numeral.Writes`): no superfluous zero, reads back as
the number, and of all numerals that do, the fewest significant digits, then the least distance to
what the number exactly is, then the larger amount. The search for digits meets the demands by
`Number.numeral_fewest_digits`. That nothing else does is a matter of numerals: the demands settle
sign and amount, and a canonical numeral is told by these two (`Numeral.Canonical.eq_of_amount`).
-/
import ScriptCore.Proofs.NumberOrder

set_option autoImplicit false

namespace ScriptCore

/-! ## Digits are told by their number -/

section Digits

variable {c d : Char} {cs ds : List Char}

theorem ofDigitChars_cons_eq (c : Char) (cs : List Char) :
    Nat.ofDigitChars 10 (c :: cs) 0 =
      10 ^ cs.length * (c.toNat - '0'.toNat) + Nat.ofDigitChars 10 cs 0 := by
  rw [← List.singleton_append, ofDigitChars_split, ofDigitChars_singleton]

theorem digit_inj (hc : c.isDigit = true) (hd : d.isDigit = true)
    (h : c.toNat - '0'.toNat = d.toNat - '0'.toNat) : c = d := by
  have hlow := Char.isDigit_iff_toNat.1 hc
  have hlow' := Char.isDigit_iff_toNat.1 hd
  have hzero : '0'.toNat = 48 := rfl
  exact Char.toNat_inj.1 (by omega)

/-- Of one length and one number, digits are the same. The first ones count more than all the others
can. -/
theorem digits_eq_of_length (hcs : ∀ c ∈ cs, c.isDigit = true) (hds : ∀ d ∈ ds, d.isDigit = true)
    (hlength : cs.length = ds.length) (h : Nat.ofDigitChars 10 cs 0 = Nat.ofDigitChars 10 ds 0) :
    cs = ds := by
  induction cs generalizing ds with
  | nil => exact (List.length_eq_zero_iff.1 hlength.symm).symm
  | cons c cs ih =>
    obtain ⟨d, ds, rfl⟩ := List.exists_cons_of_length_eq_add_one hlength.symm
    obtain ⟨hc, hrest⟩ := List.forall_mem_cons.1 hcs
    obtain ⟨hd, hrest'⟩ := List.forall_mem_cons.1 hds
    have hlength' : cs.length = ds.length := Nat.succ.inj hlength
    have hlt := ofDigitChars_lt hrest
    have hlt' := ofDigitChars_lt hrest'
    rw [ofDigitChars_cons_eq, ofDigitChars_cons_eq, hlength'] at h
    rw [hlength'] at hlt
    -- By division, what the first digits count for is the same, and so is what is left.
    have hdiv := congrArg (· / 10 ^ ds.length) h
    have hmod := congrArg (· % 10 ^ ds.length) h
    have hpos : 0 < 10 ^ ds.length := Nat.pow_pos (by omega)
    simp only [Nat.mul_add_div hpos, Nat.div_eq_of_lt hlt, Nat.div_eq_of_lt hlt', Nat.add_zero,
      Nat.mul_add_mod, Nat.mod_eq_of_lt hlt, Nat.mod_eq_of_lt hlt'] at hdiv hmod
    rw [digit_inj hc hd hdiv, ih hrest hrest' hlength' hmod]

end Digits

namespace Numeral

/-! ## Canonical numerals are told by sign and amount -/

namespace Canonical

variable {n m : Numeral}

/-- The digits before the point are as many as their number asks for. -/
theorem whole_bounds (h : n.Canonical) : n.whole = ['0'] ∨
    ∃ k, n.whole.length = k + 1 ∧ 10 ^ k ≤ Nat.ofDigitChars 10 n.whole 0 := by
  obtain ⟨c, cs, hwhole⟩ := List.exists_cons_of_ne_nil h.whole_ne_nil
  by_cases hzero : c = '0'
  · left
    apply h.leading
    rw [hwhole, hzero]
    rfl
  · right
    have hdigit := h.whole_digits c (by simp [hwhole])
    rw [hwhole]
    exact ⟨cs.length, rfl, le_ofDigitChars hdigit hzero⟩

theorem whole_eq (hn : n.Canonical) (hm : m.Canonical)
    (h : Nat.ofDigitChars 10 n.whole 0 = Nat.ofDigitChars 10 m.whole 0) : n.whole = m.whole := by
  have hlt := ofDigitChars_lt hn.whole_digits
  have hlt' := ofDigitChars_lt hm.whole_digits
  have hten : 1 < 10 := by norm_num
  have hzero : Nat.ofDigitChars 10 ['0'] 0 = 0 := rfl
  rcases hn.whole_bounds with hn0 | ⟨k, hlength, hle⟩ <;>
    rcases hm.whole_bounds with hm0 | ⟨k', hlength', hle'⟩
  · rw [hn0, hm0]
  · have hpos : 0 < 10 ^ k' := Nat.pow_pos (by omega)
    rw [← h, hn0, hzero] at hle'
    omega
  · have hpos : 0 < 10 ^ k := Nat.pow_pos (by omega)
    rw [h, hm0, hzero] at hle
    omega
  · -- Between the same two powers of ten there are the same number of digits.
    rw [hlength] at hlt
    rw [hlength'] at hlt'
    have hkk' : k < k' + 1 := (Nat.pow_lt_pow_iff_right hten).1 (by omega)
    have hk'k : k' < k + 1 := (Nat.pow_lt_pow_iff_right hten).1 (by omega)
    exact digits_eq_of_length hn.whole_digits hm.whole_digits (by omega) h

/-- Of two fractions that are the same number, neither is longer: its last digit would be zero. -/
theorem fraction_length_le (hn : n.Canonical)
    (h : (Nat.ofDigitChars 10 n.fraction 0 : ℚ) / 10 ^ n.fraction.length =
      (Nat.ofDigitChars 10 m.fraction 0 : ℚ) / 10 ^ m.fraction.length) :
    n.fraction.length ≤ m.fraction.length := by
  by_contra hlonger
  obtain ⟨k, hk⟩ : ∃ k, n.fraction.length = m.fraction.length + (k + 1) :=
    ⟨n.fraction.length - m.fraction.length - 1, by omega⟩
  have hne : n.fraction ≠ [] := by
    intro hnil
    rw [hnil, List.length_nil] at hk
    omega
  have hlast : n.fraction.getLast hne ≠ '0' := by
    intro hzero
    apply hn.trailing
    rw [List.getLast?_eq_some_getLast hne, hzero]
  have hmod : Nat.ofDigitChars 10 n.fraction 0 % 10 ≠ 0 := by
    rw [← List.dropLast_append_getLast hne]
    exact ofDigitChars_mod_ten (hn.fraction_digits _ (List.getLast_mem hne)) hlast
  have hcount : Nat.ofDigitChars 10 n.fraction 0 =
      Nat.ofDigitChars 10 m.fraction 0 * 10 ^ (k + 1) := by
    rw [hk, pow_add, div_eq_div_iff (by positivity) (by positivity)] at h
    have hscaled : (Nat.ofDigitChars 10 n.fraction 0 : ℚ) * 10 ^ m.fraction.length =
        Nat.ofDigitChars 10 m.fraction 0 * 10 ^ (k + 1) * 10 ^ m.fraction.length := by
      rw [h]
      ring
    exact_mod_cast mul_right_cancel₀ (by positivity) hscaled
  rw [hcount, pow_succ, ← Nat.mul_assoc] at hmod
  exact hmod (Nat.mul_mod_left _ 10)

theorem fraction_eq (hn : n.Canonical) (hm : m.Canonical)
    (h : (Nat.ofDigitChars 10 n.fraction 0 : ℚ) / 10 ^ n.fraction.length =
      (Nat.ofDigitChars 10 m.fraction 0 : ℚ) / 10 ^ m.fraction.length) :
    n.fraction = m.fraction := by
  have hlength := le_antisymm (hn.fraction_length_le h) (hm.fraction_length_le h.symm)
  rw [hlength, div_left_inj' (by positivity)] at h
  exact digits_eq_of_length hn.fraction_digits hm.fraction_digits hlength (by exact_mod_cast h)

/-- What stands behind the point is less than one. -/
theorem fraction_lt_one (hn : n.Canonical) :
    (Nat.ofDigitChars 10 n.fraction 0 : ℚ) / 10 ^ n.fraction.length < 1 := by
  rw [div_lt_one (by positivity)]
  exact_mod_cast ofDigitChars_lt hn.fraction_digits

/-- **Sign and amount tell a canonical numeral.** The digits before the point are the whole part of
the amount, the others are the rest. -/
theorem eq_of_amount (hn : n.Canonical) (hm : m.Canonical) (hsign : n.negative = m.negative)
    (h : n.amount = m.amount) : n = m := by
  have hlt := hn.fraction_lt_one
  have hlt' := hm.fraction_lt_one
  unfold amount at h
  have hpos : (0 : ℚ) ≤ Nat.ofDigitChars 10 n.fraction 0 / 10 ^ n.fraction.length := by positivity
  have hpos' : (0 : ℚ) ≤ Nat.ofDigitChars 10 m.fraction 0 / 10 ^ m.fraction.length := by positivity
  have hless : (Nat.ofDigitChars 10 n.whole 0 : ℚ) < Nat.ofDigitChars 10 m.whole 0 + 1 := by
    linarith
  have hless' : (Nat.ofDigitChars 10 m.whole 0 : ℚ) < Nat.ofDigitChars 10 n.whole 0 + 1 := by
    linarith
  have hwhole : Nat.ofDigitChars 10 n.whole 0 = Nat.ofDigitChars 10 m.whole 0 := by
    have hle : Nat.ofDigitChars 10 n.whole 0 < Nat.ofDigitChars 10 m.whole 0 + 1 := by
      exact_mod_cast hless
    have hle' : Nat.ofDigitChars 10 m.whole 0 < Nat.ofDigitChars 10 n.whole 0 + 1 := by
      exact_mod_cast hless'
    omega
  rw [hwhole, add_right_inj] at h
  have hw := hn.whole_eq hm hwhole
  have hf := hn.fraction_eq hm h
  obtain ⟨negative, whole, fraction⟩ := n
  obtain ⟨negative', whole', fraction'⟩ := m
  simp only at hsign hw hf
  rw [hsign, hw, hf]

end Canonical

/-! ## The numeral of a number -/

/-- The numeral is how a number is written. -/
structure Writes (n : Numeral) (x : Number) : Prop where
  canonical : n.Canonical
  rounds : n.RoundsTo x
  shortest : ∀ m : Numeral, m.Digital → m.RoundsTo x →
    n.significant.length ≤ m.significant.length
  closest : ∀ m : Numeral, m.Digital → m.RoundsTo x →
    m.significant.length = n.significant.length → |n.value - x.value| ≤ |m.value - x.value|
  /-- Of two numerals that are equally short and close, the larger one is written. -/
  larger : ∀ m : Numeral, m.Digital → m.RoundsTo x →
    m.significant.length = n.significant.length → |m.value - x.value| = |n.value - x.value| →
    m.amount ≤ n.amount

theorem Writes.unique {n m : Numeral} {x : Number} (hn : n.Writes x) (hm : m.Writes x) :
    n = m := by
  have hdigital := hn.canonical.digital
  have hdigital' := hm.canonical.digital
  have hlength : n.significant.length = m.significant.length :=
    le_antisymm (hn.shortest m hdigital' hm.rounds) (hm.shortest n hdigital hn.rounds)
  have hdistance : |n.value - x.value| = |m.value - x.value| :=
    le_antisymm (hn.closest m hdigital' hm.rounds hlength.symm)
      (hm.closest n hdigital hn.rounds hlength)
  have hamount : n.amount = m.amount :=
    le_antisymm (hm.larger n hdigital hn.rounds hlength hdistance)
      (hn.larger m hdigital' hm.rounds hlength.symm hdistance.symm)
  exact hn.canonical.eq_of_amount hm.canonical (hn.rounds.1.symm.trans hm.rounds.1) hamount

/-- A numeral without significant digits is zero. -/
theorem amount_eq_zero {n : Numeral} (h : n.significant.length = 0) : n.amount = 0 := by
  rw [amount_eq, coefficient, List.length_eq_zero_iff.1 h]
  simp

end Numeral

namespace Number

/-- **A finite number is written as its numeral.** For a zero the demands are met because it has no
significant digit, for other numbers the search meets them. -/
theorem writes_numeral {x : Number} (hx : x.isFinite = true) : x.numeral.Writes x := by
  have hround := (numeral_roundsTo_iff hx x).2 rfl
  by_cases hzero : x.isZero = true
  · have hmagnitude : x.magnitude = 0 := beq_iff_eq.1 hzero
    have hlength : x.numeral.significant.length = 0 := by
      rw [numeral, hmagnitude]
      rfl
    have hdistance : |x.numeral.value - x.value| = 0 := by
      rw [abs_value_sub_value hround.1, Numeral.amount_eq_zero hlength, hmagnitude, exact_zero,
        sub_zero, abs_zero]
    refine ⟨canonical_numeral hx, hround, ?_, ?_, ?_⟩
    · intro m _ _
      rw [hlength]
      exact Nat.zero_le _
    · intro m _ _ _
      rw [hdistance]
      exact abs_nonneg _
    · intro m _ _ hsame _
      rw [Numeral.amount_eq_zero (hsame.trans hlength), Numeral.amount_eq_zero hlength]
  · have hother : x.isZero = false := Bool.eq_false_iff.2 hzero
    have hbest := fun {m : Numeral} (hm : m.Digital) (hrounds : m.RoundsTo x) =>
      numeral_fewest_digits hx hother hm hrounds
    exact ⟨canonical_numeral hx, hround, fun m hm hrounds => (hbest hm hrounds).1,
      fun m hm hrounds hsame => ((hbest hm hrounds).2 hsame).1,
      fun m hm hrounds hsame htie => ((hbest hm hrounds).2 hsame).2 htie⟩

/-! ## Kinds of patterns, by what they denote -/

theorem denoted?_eq_coe_iff (x : Number) :
    (∃ q : ℚ, x.denoted? = some (q : Extended)) ↔ x.isFinite = true := by
  obtain ⟨hfields, -, hfraction⟩ := x.fields_magnitude
  have hfinite : x.exponentField < 2047 ↔ x.isFinite = true := by
    unfold isFinite infiniteMagnitude
    rw [decide_eq_true_eq, hfields, Nat.pow_eq]
    omega
  rw [← hfinite, denoted?]
  by_cases hexponent : x.exponentField < 2047
  · rw [if_pos hexponent]
    exact ⟨fun _ => hexponent, fun _ => ⟨_, rfl⟩⟩
  · rw [if_neg hexponent]
    constructor
    · rintro ⟨q, hq⟩
      split_ifs at hq
      · exact absurd (Option.some.inj hq).symm (WithBotTop.coe_ne_bot q)
      · exact absurd (Option.some.inj hq).symm (WithBotTop.coe_ne_top q)
    · intro hlow
      exact absurd hlow hexponent

/-- The two infinities are told apart by the sign. -/
theorem denoted?_of_isInfinite {x : Number} (hx : x.isInfinite = true) :
    x.denoted? = some (if x.isNegative then ⊥ else ⊤) := by
  obtain ⟨hfields, -, hfraction⟩ := x.fields_magnitude
  have hmagnitude : x.magnitude = infiniteMagnitude := beq_iff_eq.1 hx
  have hinfinite : infiniteMagnitude = 2047 * 2 ^ 52 := rfl
  unfold denoted?
  rw [if_neg (by omega), if_pos (by omega)]

theorem denoted?_eq_zero_iff (x : Number) :
    x.denoted? = some ((0 : ℚ) : Extended) ↔ x.isZero = true := by
  have hatZero : atKey 0 = ((0 : ℚ) : Extended) := by
    have hzero : finiteAt 0 = 0 := exact_zero
    rw [atKey, if_neg (by decide), if_neg (by decide), hzero]
  have hkey : x.isZero = true ↔ x.key = 0 := by
    unfold isZero key
    rw [beq_iff_eq]
    split <;> omega
  rw [denoted?_eq_some_iff, ← hatZero, hkey]
  constructor
  · rintro ⟨hx, hat⟩
    exact atKey_strictMonoOn.injOn (key_mem_Icc hx) (by decide) hat
  · intro hzero
    have hmagnitude := beq_iff_eq.1 (hkey.2 hzero)
    refine ⟨?_, by rw [hzero]⟩
    unfold isNaN
    rw [hmagnitude]
    rfl

end Number

/-! ## The text of a value -/

/-- The text is what is written for the value. Numbers that are not finite are written as words. -/
inductive Value.Prints : Value → String → Prop where
  | nil : Prints .nil "nil"
  | yes : Prints (.boolean true) "true"
  | no : Prints (.boolean false) "false"
  | string (s : String) : Prints (.string s) s
  | nan {x : Number} : x.denoted? = none → Prints (.number x) "NaN"
  | infinity {x : Number} : x.denoted? = some ⊤ → Prints (.number x) "Infinity"
  | minusInfinity {x : Number} : x.denoted? = some ⊥ → Prints (.number x) "-Infinity"
  | numeral {x : Number} {q : ℚ} {n : Numeral} : x.denoted? = some (q : Extended) → n.Writes x →
      Prints (.number x) (String.ofList n.chars)

namespace Value

theorem prints_text (v : Value) : v.Prints v.text := by
  rcases v with x | s | b | _
  · by_cases hnan : x.isNaN = true
    · have htext : (Value.number x).text = "NaN" := if_pos hnan
      rw [htext]
      exact .nan ((Number.denoted?_eq_none_iff x).2 hnan)
    · by_cases hinfinite : x.isInfinite = true
      · have htext : (Value.number x).text = String.ofList x.signChars ++ "Infinity" :=
          (if_neg hnan).trans (if_pos hinfinite)
        have hdenoted := Number.denoted?_of_isInfinite hinfinite
        rw [htext, Number.signChars]
        by_cases hsign : x.isNegative = true
        · rw [if_pos hsign] at hdenoted ⊢
          exact .minusInfinity hdenoted
        · rw [if_neg hsign] at hdenoted ⊢
          exact .infinity hdenoted
      · -- Neither beyond infinity nor infinite.
        have hfinite : x.isFinite = true := by
          simp only [Number.isNaN, Number.isInfinite, Number.isFinite, decide_eq_true_eq,
            beq_iff_eq] at hnan hinfinite ⊢
          omega
        have htext : (Value.number x).text = String.ofList x.numeral.chars := by
          rw [← Number.toList_text hfinite .printed, String.ofList_toList]
          rfl
        obtain ⟨q, hq⟩ := (Number.denoted?_eq_coe_iff x).2 hfinite
        rw [htext]
        exact .numeral hq (Number.writes_numeral hfinite)
  · exact .string s
  · cases b with
    | true => exact .yes
    | false => exact .no
  · exact .nil

/-- A value has one text. What a number denotes says which rule it has. -/
theorem Prints.unique {v : Value} {s t : String} (hs : v.Prints s) (ht : v.Prints t) : s = t := by
  cases hs with
  | nil | yes | no | string =>
    cases ht
    rfl
  | nan h =>
    cases ht with
    | nan => rfl
    | infinity h' | minusInfinity h' | numeral h' => simp [h] at h'
  | infinity h =>
    cases ht with
    | infinity => rfl
    | nan h' | minusInfinity h' => simp [h] at h'
    | numeral h' => exact absurd (Option.some.inj (h.symm.trans h')).symm (WithBotTop.coe_ne_top _)
  | minusInfinity h =>
    cases ht with
    | minusInfinity => rfl
    | nan h' | infinity h' => simp [h] at h'
    | numeral h' => exact absurd (Option.some.inj (h.symm.trans h')).symm (WithBotTop.coe_ne_bot _)
  | numeral h hwrites =>
    cases ht with
    | numeral _ hwrites' => rw [hwrites.unique hwrites']
    | nan h' => simp [h] at h'
    | infinity h' => exact absurd (Option.some.inj (h.symm.trans h')) (WithBotTop.coe_ne_top _)
    | minusInfinity h' => exact absurd (Option.some.inj (h.symm.trans h')) (WithBotTop.coe_ne_bot _)

theorem prints_iff (v : Value) (s : String) : v.Prints s ↔ v.text = s := by
  constructor
  · intro h
    exact (prints_text v).unique h
  · rintro rfl
    exact prints_text v

end Value

end ScriptCore
