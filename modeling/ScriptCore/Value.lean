/-
Runtime values. There are four kinds and no conversion between them: an operator that is handed
the wrong kind refuses it (`ScriptCore.Operation`).
-/
import ScriptCore.Number.Text

set_option autoImplicit false

namespace ScriptCore

/-- The kind of a value, the only thing operators look at before they accept an operand. -/
inductive Kind where
  | number
  | string
  | boolean
  | nil
deriving DecidableEq, Repr

/-- The name of a kind in diagnostics. -/
def Kind.name : Kind → String
  | .number => "number"
  | .string => "string"
  | .boolean => "boolean"
  | .nil => "nil"

/-- A value. Propositional equality of values compares numbers by pattern; the `==` of the
language is `Value.equal`. -/
inductive Value where
  | number (value : Number)
  | string (text : String)
  | boolean (value : Bool)
  | nil
deriving DecidableEq, Repr

namespace Value

/-- The kind of a value. -/
def kind : Value → Kind
  | number _ => .number
  | string _ => .string
  | boolean _ => .boolean
  | nil => .nil

/-- Only `nil` and `false` are falsy: zero and the empty string count as true. -/
def isTruthy : Value → Bool
  | nil => false
  | boolean b => b
  | _ => true

/-- The `==` of the language. Values of different kinds are never equal, and numbers compare as
`Number.equal` says, so a NaN differs from itself. -/
def equal : Value → Value → Bool
  | number x, number y => x.equal y
  | string s, string t => s == t
  | boolean a, boolean b => a == b
  | nil, nil => true
  | _, _ => false

/-- What `print` writes for a value. -/
def text : Value → String
  | number x => x.text .printed
  | string s => s
  | boolean true => "true"
  | boolean false => "false"
  | nil => "nil"

/-- Equality does not depend on the order of the two values. -/
theorem equal_comm (a b : Value) : a.equal b = b.equal a := by
  cases a <;> cases b <;> simp only [equal, Number.equal_comm] <;> exact Bool.beq_comm

/-- Equal values are of one kind. -/
theorem kind_eq_of_equal {a b : Value} (h : a.equal b = true) : a.kind = b.kind := by
  cases a <;> cases b <;> first | rfl | simp [equal] at h

end Value

end ScriptCore
