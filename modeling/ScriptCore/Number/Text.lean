/-
Numbers as text: a sign, the shortest digits that read back, laid out without an exponent. A whole
number has no point, a fraction has a digit on both sides of it.

Numbers are written in two places that agree on every finite number and spell the infinities
differently, so the spelling of what is not finite is a parameter.
-/
import ScriptCore.Number.Shortest

set_option autoImplicit false

namespace ScriptCore

/-- The digits of `n`, with zeros in front up to the given width. -/
def paddedDigits (width n : Nat) : List Char :=
  let digits := Nat.toDigits 10 n
  List.replicate (width - digits.length) '0' ++ digits

namespace Decimal

/-- The whole part, and after a point the other places, if there are any. -/
def toChars (d : Decimal) : List Char :=
  if d.places = 0 then Nat.toDigits 10 d.coefficient
  else
    Nat.toDigits 10 (d.coefficient / Nat.pow 10 d.places) ++
      '.' :: paddedDigits d.places (d.coefficient % Nat.pow 10 d.places)

end Decimal

/-- How a number that is not finite is spelled. -/
structure NumberSpelling where
  nan : String
  infinity : String

namespace NumberSpelling

/-- The spelling that `print` uses. -/
def printed : NumberSpelling := ⟨"NaN", "Infinity"⟩

/-- The spelling inside the description of a literal. -/
def described : NumberSpelling := ⟨"NaN", "inf"⟩

end NumberSpelling

namespace Number

/-- A minus sign, if the sign bit is set. -/
def signChars (x : Number) : List Char := if x.isNegative then ['-'] else []

/-- The text of a finite number. -/
def finiteChars (x : Number) : List Char := x.signChars ++ (shortest x.magnitude).toChars

/-- The text of a number. The sign of a NaN is not shown. -/
def text (spelling : NumberSpelling) (x : Number) : String :=
  if x.isNaN then spelling.nan
  else if x.isInfinite then String.ofList x.signChars ++ spelling.infinity
  else String.ofList x.finiteChars

end Number

end ScriptCore
