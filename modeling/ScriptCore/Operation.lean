/-
Operators at work on values that are already evaluated. Which operands an operator accepts:

| operator          | operands                   |
|-------------------|----------------------------|
| `==` `!=`         | any                        |
| `<` `<=` `>` `>=` | two numbers                |
| `-` `*` `/`       | two numbers                |
| `+`               | two numbers or two strings |
| unary `-`         | a number                   |
| unary `!`         | any                        |
-/
import ScriptCore.Value
import ScriptCore.Operator
import ScriptCore.Fault

set_option autoImplicit false

namespace ScriptCore

/-- The value of a unary operator at its operand. -/
def UnaryOp.apply : UnaryOp → Value → Except Fault Value
  | .neg, .number x => .ok (.number x.negate)
  | .neg, _ => .error (.typeMismatch .number)
  | .not, v => .ok (.boolean !v.isTruthy)

namespace BinaryOp

/-- An operator on two numbers, refusing anything else. -/
def onNumbers (f : Number → Number → Value) : Value → Value → Except Fault Value
  | .number x, .number y => .ok (f x y)
  | _, _ => .error (.typeMismatch .numbers)

/-- Two numbers are added and two strings are joined. -/
def plus : Value → Value → Except Fault Value
  | .number x, .number y => .ok (.number (x.add y))
  | .string s, .string t => .ok (.string (s ++ t))
  | _, _ => .error (.typeMismatch .numbersOrStrings)

/-- The value is a zero of either sign. -/
def isZeroNumber : Value → Bool
  | .number x => x.isZero
  | _ => false

/-- Division. The zero on the right is looked for first, so a string divided by zero is a
division by zero and not a mismatch. -/
def quotient (left right : Value) : Except Fault Value :=
  if isZeroNumber right then .error .divisionByZero
  else onNumbers (fun x y => .number (x.divide y)) left right

/-- The value of a binary operator at its operands. -/
def apply : BinaryOp → Value → Value → Except Fault Value
  | eq, left, right => .ok (.boolean (left.equal right))
  | notEq, left, right => .ok (.boolean !(left.equal right))
  | add, left, right => plus left right
  | sub, left, right => onNumbers (fun x y => .number (x.subtract y)) left right
  | mul, left, right => onNumbers (fun x y => .number (x.multiply y)) left right
  | div, left, right => quotient left right
  | lt, left, right => onNumbers (fun x y => .boolean (x.less y)) left right
  | ltEq, left, right => onNumbers (fun x y => .boolean (x.lessEq y)) left right
  | gt, left, right => onNumbers (fun x y => .boolean (y.less x)) left right
  | gtEq, left, right => onNumbers (fun x y => .boolean (y.lessEq x)) left right

end BinaryOp

end ScriptCore
