/-
What can go wrong while an expression is evaluated: the cause (`Fault`), and the cause together
with its message and the line it is attributed to (`EvalError`).

Operators know the cause and not the line. The evaluator adds the line of the node that raised
the fault on the way out; a line once set is never replaced, so an error that passes through
enclosing expressions keeps the innermost one. The message is made once, with the error, and is
carried along; nothing in the type ties it to the fault, so whoever wants it to be the fault's
has to say where the error comes from.
-/
import ScriptCore.Text.Quoted

set_option autoImplicit false

namespace ScriptCore

/-- What an operator asks of its operands. -/
inductive Requirement where
  /-- A number, asked of the one operand of a unary operator. -/
  | number
  /-- Two numbers. -/
  | numbers
  /-- Two numbers or two strings. -/
  | numbersOrStrings
deriving DecidableEq, Repr

/-- The label of a requirement in diagnostics. -/
def Requirement.label : Requirement → String
  | .number => "Number"
  | .numbers => "Numbers"
  | .numbersOrStrings => "NumbersOrStrings"

/-- The requirement as a sentence. -/
def Requirement.message : Requirement → String
  | .number => "Operand must be a number"
  | .numbers => "Operands must be numbers"
  | .numbersOrStrings => "Operands must be two numbers or two strings"

/-- The cause of a runtime error. -/
inductive Fault where
  /-- An operand is not of the kind the operator asks for. -/
  | typeMismatch (expected : Requirement)
  /-- The right operand of a division is zero. -/
  | divisionByZero
  /-- A variable is read or assigned that no enclosing scope binds. -/
  | undefinedVariable (name : String)
deriving DecidableEq, Repr

namespace Fault

/-- The sentence a user sees. -/
def message : Fault → String
  | typeMismatch expected => expected.message
  | divisionByZero => "Cannot divide by 0"
  | undefinedVariable name => "Undefined variable '" ++ name ++ "'."

/-- The label of the cause. -/
def label : Fault → String
  | typeMismatch _ => "TypeMismatch"
  | divisionByZero => "DivisionByZero"
  | undefinedVariable _ => "UndefinedVariable"

/-- What the cause is about: the requirement, the name, or nothing. -/
def detail : Fault → String
  | typeMismatch expected => expected.label
  | divisionByZero => ""
  | undefinedVariable name => name

/-- The cause as the trace writes it, label and fields. -/
def describe : Fault → String
  | typeMismatch expected => "TypeMismatch \x7b expected: " ++ expected.label ++ " \x7d"
  | divisionByZero => "DivisionByZero"
  | undefinedVariable name => "UndefinedVariable \x7b name: " ++ Text.quoted name ++ " \x7d"

end Fault

/-- A fault, the message made of it, and the line it is attributed to once that is known. -/
structure EvalError where
  fault : Fault
  message : String
  line : Option Nat
deriving DecidableEq, Repr

namespace EvalError

/-- A fault with its own message, not yet attributed to a line. -/
def ofFault (fault : Fault) : EvalError := ⟨fault, fault.message, none⟩

/-- Attribute the error to a line, unless it already has one. -/
def atLine (e : EvalError) (line : Nat) : EvalError := { e with line := e.line.or (some line) }

/-- The message, and the line if there is one. -/
def text (e : EvalError) : String :=
  match e.line with
  | some line => e.message ++ " [line " ++ toString line ++ "]"
  | none => e.message

@[simp] theorem atLine_fault (e : EvalError) (line : Nat) : (e.atLine line).fault = e.fault := rfl

@[simp] theorem atLine_ofFault (fault : Fault) (line : Nat) :
    (ofFault fault).atLine line = ⟨fault, fault.message, some line⟩ := rfl

/-- The first line to arrive stays. -/
@[simp] theorem atLine_atLine (e : EvalError) (first second : Nat) :
    (e.atLine first).atLine second = e.atLine first := by
  cases h : e.line <;> simp [atLine, h]

end EvalError

end ScriptCore
