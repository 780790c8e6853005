/-
Numbers of the language: IEEE 754 binary64, held as their 64-bit pattern.

Classification and comparison are read off the pattern itself. Below the sign bit the patterns
of non-NaN numbers are ordered as the numbers are, so one signed integer, `key`, decides `<`,
`<=` and `==` without decoding anything: the two zeros share the key `0`, and a NaN is excluded
by name. Arithmetic goes through `Float`, which is correctly rounded.

`units` is the exact value of a finite magnitude, counted in the smallest subnormal, which is
`2 ^ -unitPlaces`. Every finite number is a whole number of these units, which keeps the digit
search of `ScriptCore.Number.Shortest` in `Nat`.
-/

set_option autoImplicit false

namespace ScriptCore

/-- A binary64 number as its bit pattern. Two NaNs of different payload are different patterns,
and so are the two zeros; the comparisons of the language are `Number.equal` and its kin. -/
structure Number where
  bits : UInt64
deriving DecidableEq, Repr, Inhabited

namespace Number

/-! ## Sign and magnitude

The pattern splits into its top bit, the sign, and the 63 bits below it, the magnitude. -/

/-- The sign bit is set. True of `-0` and of some NaNs as well. -/
def isNegative (x : Number) : Bool := decide (Nat.pow 2 63 ≤ x.bits.toNat)

/-- The pattern without its sign bit. -/
def magnitude (x : Number) : Nat := x.bits.toNat % Nat.pow 2 63

/-- The number with the given sign and magnitude, for magnitudes below `2 ^ 63`. -/
def ofMagnitude (negative : Bool) (magnitude : Nat) : Number :=
  ⟨UInt64.ofNat ((if negative then Nat.pow 2 63 else 0) + magnitude)⟩

/-- The magnitude of the two infinities: exponent field all ones, fraction zero. -/
def infiniteMagnitude : Nat := 2047 * Nat.pow 2 52

/-- A NaN is a pattern beyond infinity. -/
def isNaN (x : Number) : Bool := decide (infiniteMagnitude < x.magnitude)

/-- One of the two infinities. -/
def isInfinite (x : Number) : Bool := x.magnitude == infiniteMagnitude

/-- Neither infinite nor NaN. -/
def isFinite (x : Number) : Bool := decide (x.magnitude < infiniteMagnitude)

/-- One of the two zeros. -/
def isZero (x : Number) : Bool := x.magnitude == 0

/-- Every finite number is a multiple of `2 ^ -unitPlaces`. Sealed, so that no proof step is ever
tempted to write the power out. -/
@[irreducible] def unitPlaces : Nat := 1074

/-- The exact value of a finite magnitude in units of `2 ^ -unitPlaces`. With exponent field zero
the fraction counts units directly; otherwise a leading bit joins the fraction and the exponent
field, less one, is a shift. -/
def units (magnitude : Nat) : Nat :=
  let exponent := magnitude / Nat.pow 2 52
  let fraction := magnitude % Nat.pow 2 52
  if exponent = 0 then fraction else (Nat.pow 2 52 + fraction) * Nat.pow 2 (exponent - 1)

/-! ## Comparison -/

/-- Where a non-NaN number stands among the others. -/
def key (x : Number) : Int := if x.isNegative then -(x.magnitude : Int) else x.magnitude

/-- Equality of the language: a NaN equals nothing, and the zeros equal each other. -/
def equal (x y : Number) : Bool := !x.isNaN && !y.isNaN && x.key == y.key

/-- Strictly less; false as soon as a NaN is involved. -/
def less (x y : Number) : Bool := !x.isNaN && !y.isNaN && decide (x.key < y.key)

/-- Less or equal; false as soon as a NaN is involved. -/
def lessEq (x y : Number) : Bool := !x.isNaN && !y.isNaN && decide (x.key ≤ y.key)

/-- Equality does not depend on the order of the two numbers. -/
theorem equal_comm (x y : Number) : x.equal y = y.equal x := by
  simp only [equal, Bool.and_comm x.isNaN.not, Bool.beq_comm (a := x.key)]

/-- A number equals itself unless it is a NaN. -/
@[simp] theorem equal_self (x : Number) : x.equal x = !x.isNaN := by
  cases h : x.isNaN <;> simp [equal, h]

/-- `<=` is `<` or `==`. -/
theorem lessEq_eq_less_or_equal (x y : Number) : x.lessEq y = (x.less y || x.equal y) := by
  cases hx : x.isNaN <;> cases hy : y.isNaN <;> simp [lessEq, less, equal, hx, hy]
  rw [Bool.eq_iff_iff]
  simp only [decide_eq_true_eq, Bool.or_eq_true, beq_iff_eq]
  omega

/-! ## Arithmetic -/

/-- The number a `Float` holds. -/
def ofFloat (x : Float) : Number := ⟨x.toBits⟩

/-- The number as a `Float`. -/
def toFloat (x : Number) : Float := Float.ofBits x.bits

/-- The sign bit flipped, also of a zero or a NaN. -/
def negate (x : Number) : Number := ofMagnitude (!x.isNegative) x.magnitude

/-- The sum. -/
def add (x y : Number) : Number := ofFloat (x.toFloat + y.toFloat)

/-- The difference. -/
def subtract (x y : Number) : Number := ofFloat (x.toFloat - y.toFloat)

/-- The product. -/
def multiply (x y : Number) : Number := ofFloat (x.toFloat * y.toFloat)

/-- The quotient. A division by zero is an infinity or a NaN here; the operator of the language
refuses it before it comes to this. -/
def divide (x y : Number) : Number := ofFloat (x.toFloat / y.toFloat)

end Number

end ScriptCore
