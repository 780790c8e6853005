/-
The evaluator that runs: the same recursion with its pending work in a list.

Expressions may be nested tens of thousands deep, which is more than a call stack should be asked
to hold. Here what remains to be done after the current expression is a list of frames, and each
step either goes down to an operand or hands a value up to the first frame. `run_node` says that
going down to an expression is evaluating it and handing its value up, so `evaluate` computes what
`evalWithin` defines.
-/
import ScriptCore.Run.Expression

set_option autoImplicit false

namespace ScriptCore

/-- What is to be done with a value once it is known. -/
inductive Frame where
  /-- Apply a unary operator to it. -/
  | unary (op : UnaryOp) (line : Nat)
  /-- It is the left operand: evaluate the right one, within the given depth. -/
  | left (op : BinaryOp) (right : NodeId) (line : Nat) (depth : Nat)
  /-- It is the right operand: apply the operator. -/
  | right (op : BinaryOp) (left : Value) (line : Nat)
  /-- Assign it. -/
  | assign (name : Name) (line : Nat)

/-- Where the machine is: before an expression, or after one with its value. -/
inductive Focus where
  | node (depth : Nat) (id : NodeId)
  | value (value : Value)

/-! ## The measure

Evaluating within depth `n + 1` can lead to two evaluations within depth `n` and three steps
around them. A frame that waits for its left operand has one of the two still to come. -/

/-- A bound on the steps spent below an expression. -/
def Focus.stepsWithin : Nat → Nat
  | 0 => 1
  | depth + 1 => 2 * stepsWithin depth + 3

/-- A bound on the steps spent at a focus. -/
def Focus.steps : Focus → Nat
  | node depth _ => stepsWithin depth
  | value _ => 0

/-- A bound on the steps spent on a frame once it has its value. -/
def Frame.steps : Frame → Nat
  | left _ _ _ depth => Focus.stepsWithin depth + 2
  | _ => 1

/-- A bound on the steps spent on pending frames. -/
def Frame.stepsAll : List Frame → Nat
  | [] => 0
  | frame :: frames => frame.steps + stepsAll frames

namespace Program

/-- Run the machine from a focus, with the work that is pending behind it. -/
def run (p : Program) : Focus → List Frame → State → Outcome Value
  | .node 0 _, _, st => .fail .tooDeep st
  | .node (depth + 1) id, frames, st =>
    match p.arena.get? id with
    | none => .fail (p.missing id) st
    | some ⟨form, line⟩ =>
      match form with
      | .literal literal => p.run (.value (p.literalValue literal)) frames st
      | .grouping inner => p.run (.node depth inner) frames st
      | .unary op operand => p.run (.node depth operand) (.unary op line :: frames) st
      | .binary op left right =>
        p.run (.node depth left) (.left op right line depth :: frames) st
      | .read name => (p.readName name line st).andThen fun v st => p.run (.value v) frames st
      | .assign name value => p.run (.node depth value) (.assign name line :: frames) st
  | .value v, [], st => .done v st
  | .value v, .unary op line :: frames, st =>
    (st.applyUnary op v line).andThen fun v st => p.run (.value v) frames st
  | .value v, .left op right line depth :: frames, st =>
    p.run (.node depth right) (.right op v line :: frames) st
  | .value v, .right op left line :: frames, st =>
    (st.applyBinary op left v line).andThen fun v st => p.run (.value v) frames st
  | .value v, .assign name line :: frames, st =>
    (p.assignName name v line st).andThen fun v st => p.run (.value v) frames st
termination_by focus frames => focus.steps + Frame.stepsAll frames
decreasing_by
  all_goals simp only [Focus.steps, Focus.stepsWithin, Frame.steps, Frame.stepsAll]
  all_goals omega

/-- Evaluate an expression of the arena. -/
def evaluate (p : Program) (id : NodeId) (st : State) : Outcome Value :=
  p.run (.node p.maxDepth id) [] st

/-- Going down to an expression evaluates it and hands its value to the frames behind it, or ends
the run with its failure. -/
theorem run_node (p : Program) (depth : Nat) (id : NodeId) (frames : List Frame) (st : State) :
    p.run (.node depth id) frames st =
      (p.evalWithin depth id st).andThen fun v st => p.run (.value v) frames st := by
  induction depth generalizing id frames st with
  | zero => simp [run, evalWithin]
  | succ depth ih =>
    rw [run, evalWithin]
    cases p.arena.get? id with
    | none => simp
    | some node =>
      obtain ⟨form, line⟩ := node
      cases form with
      | literal | read => simp
      | grouping => simp [ih]
      | unary | assign => simp [ih, run]
      | binary => simp [ih, run]

/-- The machine computes the value that the recursion along the references defines. -/
theorem evaluate_eq_evalWithin (p : Program) (id : NodeId) (st : State) :
    p.evaluate id st = p.evalWithin p.maxDepth id st := by
  simp [evaluate, run_node, run]

end Program

end ScriptCore
