/-
The trace of a run: one event for each program started, block entered or left, operator that
refused its operands, and error that ended a program. Every event has a level, a message and
named fields, all of which are text.

One event more is about the machine and not about the program: the native stack was short of room
and grows. `ScriptCore.Run.Growth` says where it occurs. The other modules of `ScriptCore.Run`
leave the stack out of account and never record it.
-/
import ScriptCore.Value
import ScriptCore.Operator
import ScriptCore.Fault

set_option autoImplicit false

namespace ScriptCore

/-- One event of a trace. The depth of a block event counts the scopes that are live after the
block is entered or left. -/
inductive Event where
  | started (count : Nat)
  | blockEntered (depth : Nat)
  | blockLeft (depth : Nat)
  | unaryRefused (op : UnaryOp) (operand : Kind) (line : Nat)
  | binaryRefused (op : BinaryOp) (left right : Kind) (line : Nat)
  | failed (error : EvalError)
  | stackGrown (segment : Nat)
deriving DecidableEq, Repr

namespace Event

/-- Blocks and the stack are traced at the finer level. -/
def level : Event → String
  | blockEntered _ | blockLeft _ | stackGrown _ => "TRACE"
  | _ => "DEBUG"

/-- What happened, in fixed words. -/
def message : Event → String
  | started _ => "span interpret"
  | blockEntered _ => "enter block"
  | blockLeft _ => "leave block"
  | unaryRefused .. => "unary operator rejected operand"
  | binaryRefused .. => "binary operator rejected operands"
  | failed _ => "runtime error"
  | stackGrown _ => "growing evaluator stack"

/-- A line that may be missing, as the fields of an event write it. -/
def lineField : Option Nat → String
  | some line => "Some(" ++ toString line ++ ")"
  | none => "None"

/-- The fields, by name. -/
def fields : Event → List (String × String)
  | started count => [("count", toString count)]
  | blockEntered depth | blockLeft depth => [("depth", toString depth)]
  | unaryRefused op operand line =>
    [("op", op.symbol), ("operand", operand.name), ("line", toString line)]
  | binaryRefused op left right line =>
    [("op", op.symbol), ("left", left.name), ("right", right.name), ("line", toString line)]
  | failed error => [("line", lineField error.line), ("kind", error.fault.describe)]
  | stackGrown segment => [("segment", toString segment)]

end Event

end ScriptCore
