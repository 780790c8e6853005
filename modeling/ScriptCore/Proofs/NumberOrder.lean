/-
Comparison of numbers, as numbers.

`Number.key` compares patterns: the bits below the sign, with a minus in front if the sign is set.
That this is comparison of what the patterns denote is said here without it. A pattern is read by
its fields, as a rational number, as one of the two infinities or as nothing (`Number.denoted?`),
and a comparison is then the relation of the same name between what is denoted
(`BinaryOp.relation?`).

The link is that what is denoted grows with the key, from one infinity to the other
(`Number.atKey_strictMonoOn`): on each side of zero because the next magnitude is the next number
(`Number.exact_strictMono`), and across it because both zeros have the key `0`. What comparisons owe
to their being relations of numbers is then read off the order of numbers.
-/
import Mathlib.Data.Int.ConditionallyCompleteOrder
import Mathlib.Order.WithBotTop
import ScriptCore.Operation
import ScriptCore.Proofs.ShortestDigits

set_option autoImplicit false

namespace ScriptCore

/-- A number, or one of the two infinities around all numbers. -/
abbrev Extended : Type := WithBotTop ℚ

namespace Number

/-! ## What a pattern denotes -/

/-- The eleven bits below the sign. -/
def exponentField (x : Number) : Nat := x.bits.toNat / 2 ^ 52 % 2 ^ 11

/-- The lowest 52 bits. -/
def fractionField (x : Number) : Nat := x.bits.toNat % 2 ^ 52

/-- What the pattern denotes. With all bits of the exponent set it is an infinity if the fraction is
zero, and nothing otherwise. -/
def denoted? (x : Number) : Option Extended :=
  if x.exponentField < 2047 then some (x.value : Extended)
  else if x.fractionField = 0 then some (if x.isNegative then ⊥ else ⊤)
  else none

/-- Both patterns denote something, and what they denote stands in the relation. -/
def Denoting (R : Extended → Extended → Prop) (x y : Number) : Prop :=
  ∃ q r, x.denoted? = some q ∧ y.denoted? = some r ∧ R q r

theorem fields_magnitude (x : Number) :
    x.magnitude = x.exponentField * 2 ^ 52 + x.fractionField ∧ x.exponentField ≤ 2047 ∧
      x.fractionField < 2 ^ 52 := by
  have hbits : x.bits.toNat < 2 ^ 64 := x.bits.toNat_lt
  unfold magnitude exponentField fractionField
  rw [Nat.pow_eq]
  omega

/-- The patterns that denote nothing are those beyond infinity. -/
theorem denoted?_eq_none_iff (x : Number) : x.denoted? = none ↔ x.isNaN = true := by
  obtain ⟨hfields, hexponent, hfraction⟩ := x.fields_magnitude
  unfold denoted? isNaN infiniteMagnitude
  rw [decide_eq_true_eq, hfields, Nat.pow_eq]
  by_cases hfinite : x.exponentField < 2047
  · rw [if_pos hfinite]
    simp only [reduceCtorEq, false_iff]
    omega
  · rw [if_neg hfinite]
    by_cases hzero : x.fractionField = 0
    · rw [if_pos hzero]
      simp only [reduceCtorEq, false_iff]
      omega
    · rw [if_neg hzero]
      simp only [true_iff]
      omega

/-! ## Keys -/

/-- The finite number with the given key. -/
def finiteAt (key : Int) : ℚ := if key < 0 then -exact key.natAbs else exact key.natAbs

/-- What the patterns with the given key denote. -/
def atKey (key : Int) : Extended :=
  if key = -infiniteMagnitude then ⊥ else if key = infiniteMagnitude then ⊤
  else (finiteAt key : Extended)

theorem finiteAt_strictMono : StrictMono finiteAt := by
  intro i j hlt
  unfold finiteAt
  by_cases hj : j < 0
  · have hi : i < 0 := by omega
    have hexact := exact_strictMono (show j.natAbs < i.natAbs by omega)
    rw [if_pos hi, if_pos hj]
    linarith
  · have hright : 0 ≤ exact j.natAbs := by
      rw [← exact_zero]
      exact exact_strictMono.monotone (Nat.zero_le _)
    by_cases hi : i < 0
    · have hleft : 0 < exact i.natAbs := exact_pos (by omega)
      rw [if_pos hi, if_neg hj]
      linarith
    · rw [if_neg hi, if_neg hj]
      exact exact_strictMono (by omega)

/-- **The order of keys is the order of numbers**, from one infinity to the other. -/
theorem atKey_strictMonoOn :
    StrictMonoOn atKey (Set.Icc (-infiniteMagnitude : Int) infiniteMagnitude) := by
  intro i hi j hj hlt
  have hlow : j ≠ -infiniteMagnitude := by
    have := hi.1
    omega
  have hhigh : i ≠ infiniteMagnitude := by
    have := hj.2
    omega
  unfold atKey
  rw [if_neg hlow, if_neg hhigh]
  by_cases hbot : i = -infiniteMagnitude
  · rw [if_pos hbot, bot_lt_iff_ne_bot]
    by_cases htop : j = infiniteMagnitude
    · rw [if_pos htop]
      exact WithBotTop.top_ne_bot
    · rw [if_neg htop]
      exact WithBotTop.coe_ne_bot _
  · rw [if_neg hbot]
    by_cases htop : j = infiniteMagnitude
    · rw [if_pos htop, lt_top_iff_ne_top]
      exact WithBotTop.coe_ne_top _
    · rw [if_neg htop, WithBotTop.coe_lt_coe]
      exact finiteAt_strictMono hlt

theorem value_eq_finiteAt (x : Number) : x.value = finiteAt x.key := by
  unfold value finiteAt key
  rcases x.isNegative with _ | _
  · rw [if_neg Bool.false_ne_true, if_neg Bool.false_ne_true, if_neg (by omega), Int.natAbs_natCast]
  · rw [if_pos rfl, if_pos rfl, Int.natAbs_neg, Int.natAbs_natCast]
    by_cases hzero : x.magnitude = 0
    · -- The two zeros have one key.
      rw [hzero, exact_zero, if_neg (by decide), neg_zero]
    · rw [if_pos (by omega)]

theorem key_mem_Icc {x : Number} (hx : x.isNaN = false) :
    x.key ∈ Set.Icc (-infiniteMagnitude : Int) infiniteMagnitude := by
  have hmagnitude : x.magnitude ≤ infiniteMagnitude := Nat.le_of_not_lt (of_decide_eq_false hx)
  unfold key
  rcases x.isNegative with _ | _
  · rw [if_neg Bool.false_ne_true]
    exact ⟨by omega, by omega⟩
  · rw [if_pos rfl]
    exact ⟨by omega, by omega⟩

theorem denoted?_eq_atKey {x : Number} (hx : x.isNaN = false) :
    x.denoted? = some (atKey x.key) := by
  obtain ⟨hfields, hexponent, hfraction⟩ := x.fields_magnitude
  have hinfinite : infiniteMagnitude = 2047 * 2 ^ 52 := rfl
  have hmagnitude : x.magnitude ≤ infiniteMagnitude := Nat.le_of_not_lt (of_decide_eq_false hx)
  have hkey : x.key = if x.isNegative then -(x.magnitude : Int) else x.magnitude := rfl
  unfold denoted? atKey
  by_cases hfinite : x.exponentField < 2047
  · have hlow : x.key ≠ -infiniteMagnitude := by
      rw [hkey]
      split <;> omega
    have hhigh : x.key ≠ infiniteMagnitude := by
      rw [hkey]
      split <;> omega
    rw [if_pos hfinite, if_neg hlow, if_neg hhigh, value_eq_finiteAt]
  · -- Not beyond infinity and not below it: the key is one of the two ends.
    have hmax : x.magnitude = infiniteMagnitude := by omega
    rw [if_neg hfinite, if_pos (by omega), hkey, hmax]
    rcases x.isNegative with _ | _
    · rw [if_neg Bool.false_ne_true, if_neg Bool.false_ne_true, if_neg (by omega), if_pos rfl]
    · rw [if_pos rfl, if_pos rfl, if_pos rfl]

theorem denoted?_eq_some_iff (x : Number) (q : Extended) :
    x.denoted? = some q ↔ x.isNaN = false ∧ atKey x.key = q := by
  constructor
  · intro h
    have hx : x.isNaN = false := by
      rw [← Bool.not_eq_true, ← denoted?_eq_none_iff, h]
      exact Option.some_ne_none q
    rw [denoted?_eq_atKey hx] at h
    exact ⟨hx, Option.some.inj h⟩
  · rintro ⟨hx, rfl⟩
    exact denoted?_eq_atKey hx

/-! ## Comparisons of patterns

Each looks for a NaN on either side and then compares the keys. -/

section Compare

variable {R : Extended → Extended → Prop} {x y : Number}

theorem denoting_swap : y.Denoting R x ↔ x.Denoting (fun q r => R r q) y := by
  constructor
  · rintro ⟨q, r, hq, hr, hR⟩
    exact ⟨r, q, hr, hq, hR⟩
  · rintro ⟨q, r, hq, hr, hR⟩
    exact ⟨r, q, hr, hq, hR⟩

theorem denoting_iff_keys {b : Bool}
    (h : x.isNaN = false → y.isNaN = false → (b = true ↔ R (atKey x.key) (atKey y.key))) :
    (!x.isNaN && !y.isNaN && b) = true ↔ x.Denoting R y := by
  simp only [Bool.and_eq_true, Bool.not_eq_true']
  constructor
  · rintro ⟨⟨hx, hy⟩, hb⟩
    exact ⟨_, _, denoted?_eq_atKey hx, denoted?_eq_atKey hy, (h hx hy).1 hb⟩
  · rintro ⟨q, r, hq, hr, hR⟩
    obtain ⟨hx, rfl⟩ := (denoted?_eq_some_iff x q).1 hq
    obtain ⟨hy, rfl⟩ := (denoted?_eq_some_iff y r).1 hr
    exact ⟨⟨hx, hy⟩, (h hx hy).2 hR⟩

theorem equal_iff (x y : Number) : x.equal y = true ↔ x.Denoting (· = ·) y := by
  apply denoting_iff_keys
  intro hx hy
  rw [atKey_strictMonoOn.injOn.eq_iff (key_mem_Icc hx) (key_mem_Icc hy), beq_iff_eq]

theorem less_iff (x y : Number) : x.less y = true ↔ x.Denoting (· < ·) y := by
  apply denoting_iff_keys
  intro hx hy
  rw [atKey_strictMonoOn.lt_iff_lt (key_mem_Icc hx) (key_mem_Icc hy), decide_eq_true_eq]

theorem lessEq_iff (x y : Number) : x.lessEq y = true ↔ x.Denoting (· ≤ ·) y := by
  apply denoting_iff_keys
  intro hx hy
  rw [atKey_strictMonoOn.le_iff_le (key_mem_Icc hx) (key_mem_Icc hy), decide_eq_true_eq]

end Compare

theorem equal_trans {x y z : Number} (h : x.equal y = true) (h' : y.equal z = true) :
    x.equal z = true := by
  obtain ⟨q, _, hq, hr, rfl⟩ := (equal_iff x y).1 h
  obtain ⟨r, s, hr', hs, rfl⟩ := (equal_iff y z).1 h'
  rw [hr] at hr'
  exact (equal_iff x z).2 ⟨q, r, hq, hs, Option.some.inj hr'⟩

end Number

/-! ## Equality of values -/

namespace Value

/-- The value is not a NaN. -/
def Denotes (v : Value) : Prop := ∀ x, v = .number x → x.denoted? ≠ none

theorem equal_trans {a b c : Value} (h : a.equal b = true) (h' : b.equal c = true) :
    a.equal c = true := by
  have hab := kind_eq_of_equal h
  have hbc := kind_eq_of_equal h'
  rcases a with x | s | p | _ <;> rcases b with y | t | q | _ <;> cases hab <;>
    rcases c with z | u | r | _ <;> cases hbc
  · exact Number.equal_trans h h'
  · exact beq_iff_eq.2 ((beq_iff_eq.1 h).trans (beq_iff_eq.1 h'))
  · exact beq_iff_eq.2 ((beq_iff_eq.1 h).trans (beq_iff_eq.1 h'))
  · rfl

theorem equal_self_iff (v : Value) : v.equal v = true ↔ v.Denotes := by
  unfold Denotes
  rcases v with x | s | p | _
  · rw [equal, Number.equal_self, Bool.not_eq_true']
    constructor
    · rintro hx y hy hnone
      cases hy
      rw [Number.denoted?_eq_none_iff, hx] at hnone
      cases hnone
    · intro h
      rw [← Bool.not_eq_true, ← Number.denoted?_eq_none_iff]
      exact h x rfl
  · simp [equal]
  · simp [equal]
  · simp [equal]

end Value

/-! ## The operators -/

namespace BinaryOp

/-- The relation of numbers that a comparison is named for. -/
def relation? : BinaryOp → Option (Extended → Extended → Prop)
  | eq => some (· = ·)
  | lt => some (· < ·)
  | ltEq => some (· ≤ ·)
  | gt => some (· > ·)
  | gtEq => some (· ≥ ·)
  | _ => none

/-- The operator gives `true`. -/
def Holds (op : BinaryOp) (l r : Value) : Prop := op.apply l r = .ok (.boolean true)

instance (op : BinaryOp) (l r : Value) : Decidable (op.Holds l r) :=
  inferInstanceAs (Decidable (op.apply l r = .ok (.boolean true)))

/-- The operator gives `true` if the statement is true, and `false` otherwise. -/
def Answers (op : BinaryOp) (l r : Value) (P : Prop) : Prop :=
  ∃ b, op.apply l r = .ok (.boolean b) ∧ (b = true ↔ P)

theorem Answers.holds_iff {op : BinaryOp} {l r : Value} {P : Prop} (h : op.Answers l r P) :
    op.Holds l r ↔ P := by
  obtain ⟨b, hb, hP⟩ := h
  rw [Holds, hb, ← hP]
  simp only [Except.ok.injEq, Value.boolean.injEq]

/-- A comparison answers whether its relation holds between what the patterns denote. -/
theorem answers_relation {op : BinaryOp} {R : Extended → Extended → Prop}
    (hop : op.relation? = some R) (x y : Number) :
    op.Answers (.number x) (.number y) (x.Denoting R y) := by
  cases op with
  | eq =>
    obtain rfl := Option.some.inj hop
    exact ⟨_, rfl, Number.equal_iff x y⟩
  | lt =>
    obtain rfl := Option.some.inj hop
    exact ⟨_, rfl, Number.less_iff x y⟩
  | ltEq =>
    obtain rfl := Option.some.inj hop
    exact ⟨_, rfl, Number.lessEq_iff x y⟩
  | gt =>
    obtain rfl := Option.some.inj hop
    exact ⟨_, rfl, (Number.less_iff y x).trans Number.denoting_swap⟩
  | gtEq =>
    obtain rfl := Option.some.inj hop
    exact ⟨_, rfl, (Number.lessEq_iff y x).trans Number.denoting_swap⟩
  | add | sub | mul | div | notEq => cases hop

theorem answers_notEq (l r : Value) : BinaryOp.notEq.Answers l r (¬ BinaryOp.eq.Holds l r) := by
  refine ⟨_, rfl, ?_⟩
  rw [Holds, apply]
  simp only [Bool.not_eq_true', Except.ok.injEq, Value.boolean.injEq, Bool.not_eq_true]

/-- Of two patterns that denote something, a comparison is about what they denote. -/
theorem holds_iff_of_denoted? {x y : Number} {q r : Extended} (hx : x.denoted? = some q)
    (hy : y.denoted? = some r) {op : BinaryOp} {R : Extended → Extended → Prop}
    (hop : op.relation? = some R) : op.Holds (.number x) (.number y) ↔ R q r := by
  rw [(answers_relation hop x y).holds_iff]
  constructor
  · rintro ⟨q', r', hq, hr, hR⟩
    rw [hx] at hq
    rw [hy] at hr
    obtain rfl := Option.some.inj hq
    obtain rfl := Option.some.inj hr
    exact hR
  · intro hR
    exact ⟨q, r, hx, hy, hR⟩

/-- Exactly one of the three comparisons holds. -/
structure Trichotomy (l r : Value) : Prop where
  some_holds : lt.Holds l r ∨ eq.Holds l r ∨ gt.Holds l r
  not_lt_eq : ¬ (lt.Holds l r ∧ eq.Holds l r)
  not_eq_gt : ¬ (eq.Holds l r ∧ gt.Holds l r)
  not_lt_gt : ¬ (lt.Holds l r ∧ gt.Holds l r)

theorem trichotomy {x y : Number} (hx : x.denoted? ≠ none) (hy : y.denoted? ≠ none) :
    Trichotomy (.number x) (.number y) := by
  obtain ⟨q, hq⟩ := Option.ne_none_iff_exists'.1 hx
  obtain ⟨r, hr⟩ := Option.ne_none_iff_exists'.1 hy
  have hlt : lt.Holds (.number x) (.number y) ↔ q < r := holds_iff_of_denoted? hq hr rfl
  have heq : eq.Holds (.number x) (.number y) ↔ q = r := holds_iff_of_denoted? hq hr rfl
  have hgt : gt.Holds (.number x) (.number y) ↔ q > r := holds_iff_of_denoted? hq hr rfl
  constructor
  · rw [hlt, heq, hgt]
    exact lt_trichotomy q r
  · rw [hlt, heq]
    rintro ⟨hless, hsame⟩
    exact hless.ne hsame
  · rw [heq, hgt]
    rintro ⟨hsame, hmore⟩
    exact hmore.ne' hsame
  · rw [hlt, hgt]
    rintro ⟨hless, hmore⟩
    exact hless.asymm hmore

theorem holds_ltEq_iff (x y : Number) :
    ltEq.Holds (.number x) (.number y) ↔
      lt.Holds (.number x) (.number y) ∨ eq.Holds (.number x) (.number y) := by
  simp only [Holds, apply, onNumbers, Value.equal, Number.lessEq_eq_less_or_equal, Bool.or_eq_true,
    Except.ok.injEq, Value.boolean.injEq]

/-- An operator on two numbers may be turned around together with its operands. -/
theorem onNumbers_swap (f : Number → Number → Value) (l r : Value) :
    onNumbers f l r = onNumbers (fun x y => f y x) r l := by
  rcases l with x | s | b | _ <;> rcases r with y | t | c | _ <;> rfl

theorem apply_lt (l r : Value) : lt.apply l r = gt.apply r l := onNumbers_swap _ l r

theorem apply_ltEq (l r : Value) : ltEq.apply l r = gtEq.apply r l := onNumbers_swap _ l r

theorem holds_gtEq_iff (x y : Number) :
    gtEq.Holds (.number x) (.number y) ↔
      gt.Holds (.number x) (.number y) ∨ eq.Holds (.number x) (.number y) := by
  have h := holds_ltEq_iff y x
  have hcomm : eq.Holds (.number y) (.number x) ↔ eq.Holds (.number x) (.number y) := by
    rw [Holds, Holds, apply, apply, Value.equal_comm]
  rw [hcomm, Holds, apply_ltEq, Holds, apply_lt] at h
  exact h

/-- **Comparisons are those of the numbers denoted.** Each of `==`, `<`, `<=`, `>` and `>=` answers
for all pairs of patterns whether both denote a number or an infinity and these stand in the
relation, and `!=` answers the opposite of `==`. So exactly one of `<`, `==` and `>` holds where no
NaN is involved, `<=` is `<` or `==`, and `>` is `<` turned around. Equality of values of all kinds
is symmetric and transitive, keeps to one kind, and holds of a value and itself unless it is a
NaN. -/
theorem comparisons_are_exact :
    (∀ op R, relation? op = some R → ∀ x y : Number,
      op.Answers (.number x) (.number y) (x.Denoting R y)) ∧
    (∀ l r, notEq.Answers l r (¬ eq.Holds l r)) ∧
    (∀ x y : Number, x.denoted? ≠ none → y.denoted? ≠ none →
      Trichotomy (.number x) (.number y)) ∧
    (∀ x y : Number,
      (ltEq.Holds (.number x) (.number y) ↔
        lt.Holds (.number x) (.number y) ∨ eq.Holds (.number x) (.number y)) ∧
      (gtEq.Holds (.number x) (.number y) ↔
        gt.Holds (.number x) (.number y) ∨ eq.Holds (.number x) (.number y))) ∧
    (∀ l r, lt.apply l r = gt.apply r l) ∧
    (∀ l r, eq.Answers l r (l.equal r = true)) ∧
    (∀ a b : Value, a.equal b = true → b.equal a = true ∧ a.kind = b.kind) ∧
    (∀ a b c : Value, a.equal b = true → b.equal c = true → a.equal c = true) ∧
    ∀ v : Value, v.equal v = true ↔ v.Denotes := by
  refine ⟨fun op R hop x y => answers_relation hop x y, answers_notEq, ?_, ?_, apply_lt, ?_, ?_, ?_,
    Value.equal_self_iff⟩
  · intro x y hx hy
    exact trichotomy hx hy
  · intro x y
    exact ⟨holds_ltEq_iff x y, holds_gtEq_iff x y⟩
  · intro l r
    exact ⟨_, rfl, Iff.rfl⟩
  · intro a b h
    exact ⟨(Value.equal_comm b a).trans h, Value.kind_eq_of_equal h⟩
  · intro a b c h h'
    exact Value.equal_trans h h'

/-- The largest number below zero is less than the negative zero, though its pattern is the larger
one; the negative zero equals the other zero; and a NaN does not equal itself. -/
theorem comparisons_are_exact_around_zero :
    let zero : Number := ⟨0⟩
    let minusZero : Number := ⟨0x8000000000000000⟩
    let minusTiny : Number := ⟨0x8000000000000001⟩
    let infinity : Number := ⟨0x7ff0000000000000⟩
    let nan : Number := ⟨0x7ff0000000000001⟩
    relation? lt = some (· < ·) ∧ minusTiny.Denoting (· < ·) minusZero ∧
      relation? eq = some (· = ·) ∧ minusZero.Denoting (· = ·) zero ∧
      minusTiny.denoted? ≠ none ∧ infinity.denoted? ≠ none ∧
      Trichotomy (.number minusTiny) (.number infinity) ∧
      (Value.number minusZero).equal (.number minusZero) = true ∧
      ¬ (Value.number nan).Denotes := by
  intro zero minusZero minusTiny infinity nan
  obtain ⟨hrelation, -, htrichotomy, -, -, -, -, htrans, hself⟩ := comparisons_are_exact
  have hless : lt.Holds (.number minusTiny) (.number minusZero) := by decide
  have hequal : eq.Holds (.number minusZero) (.number zero) := by decide
  have htiny : minusTiny.denoted? ≠ none := by
    rw [Ne, Number.denoted?_eq_none_iff]
    decide
  have hinfinity : infinity.denoted? ≠ none := by
    rw [Ne, Number.denoted?_eq_none_iff]
    decide
  refine ⟨rfl, (hrelation lt _ rfl minusTiny minusZero).holds_iff.1 hless, rfl,
    (hrelation eq _ rfl minusZero zero).holds_iff.1 hequal, htiny, hinfinity,
    htrichotomy minusTiny infinity htiny hinfinity, ?_, ?_⟩
  · exact htrans _ (.number zero) _ (by decide) (by decide)
  · rw [← hself]
    decide

end BinaryOp

end ScriptCore
