/-
The value of an expression, by recursion along the references of the arena.

References may lead anywhere, so the recursion carries the number of references it may still
follow. An arena of `n` expressions without a cycle has no path longer than `n`, and one more step
may lead to an expression that is missing; `n + 1` is therefore always enough.

An expression in several places is evaluated, with its effects, once for each of them. Both
operands of a binary operator are evaluated, the left one first.
-/
import ScriptCore.Run.State

set_option autoImplicit false

namespace ScriptCore

namespace State

/-- Apply a unary operator. A refusal is traced and attributed to the line. -/
def applyUnary (st : State) (op : UnaryOp) (operand : Value) (line : Nat) : Outcome Value :=
  match op.apply operand with
  | .ok value => .done value st
  | .error fault =>
    .fail (.error ((EvalError.ofFault fault).atLine line))
      (st.record (.unaryRefused op operand.kind line))

/-- Apply a binary operator. A refusal is traced and attributed to the line. -/
def applyBinary (st : State) (op : BinaryOp) (left right : Value) (line : Nat) : Outcome Value :=
  match op.apply left right with
  | .ok value => .done value st
  | .error fault =>
    .fail (.error ((EvalError.ofFault fault).atLine line))
      (st.record (.binaryRefused op left.kind right.kind line))

/-! An operator changes neither the scopes nor the output. -/

section Parts

variable (st : State) (line : Nat)

@[simp] theorem env_applyUnary (op : UnaryOp) (operand : Value) :
    (st.applyUnary op operand line).state.env = st.env := by
  rw [applyUnary]
  split <;> rfl

@[simp] theorem output_applyUnary (op : UnaryOp) (operand : Value) :
    (st.applyUnary op operand line).state.output = st.output := by
  rw [applyUnary]
  split <;> rfl

@[simp] theorem env_applyBinary (op : BinaryOp) (left right : Value) :
    (st.applyBinary op left right line).state.env = st.env := by
  rw [applyBinary]
  split <;> rfl

@[simp] theorem output_applyBinary (op : BinaryOp) (left right : Value) :
    (st.applyBinary op left right line).state.output = st.output := by
  rw [applyBinary]
  split <;> rfl

end Parts

end State

namespace Program

/-- The value of a literal. -/
def literalValue (p : Program) : Literal → Value
  | .number x => .number x
  | .string name => .string (p.names.text name)
  | .boolean b => .boolean b
  | .nil => .nil

/-- The error for a name that no scope binds. -/
def undefined (p : Program) (u : Unbound) : Halt :=
  .error ((EvalError.ofFault (.undefinedVariable (p.names.text u.name))).atLine u.line)

/-- The failure for a reference that leads nowhere. -/
def missing (p : Program) (id : NodeId) : Halt := .missing p.arena.size id

/-- Read a variable. -/
def readName (p : Program) (name : Name) (line : Nat) (st : State) : Outcome Value :=
  match st.env.get name line with
  | .ok value => .done value st
  | .error unbound => .fail (p.undefined unbound) st

/-- Assign a variable. The value assigned is the value of the assignment. -/
def assignName (p : Program) (name : Name) (value : Value) (line : Nat) (st : State) :
    Outcome Value :=
  match st.env.assign name value line with
  | .ok env => .done value { st with env }
  | .error unbound => .fail (p.undefined unbound) st

/-- The value of a node, with its operands evaluated as given. -/
def evalNode (p : Program) (ev : NodeId → State → Outcome Value) : Node → State → Outcome Value
  | ⟨.literal literal, _⟩, st => .done (p.literalValue literal) st
  | ⟨.grouping inner, _⟩, st => ev inner st
  | ⟨.unary op operand, line⟩, st =>
    (ev operand st).andThen fun value st => st.applyUnary op value line
  | ⟨.binary op left right, line⟩, st =>
    (ev left st).andThen fun leftValue st =>
      (ev right st).andThen fun rightValue st => st.applyBinary op leftValue rightValue line
  | ⟨.read name, line⟩, st => p.readName name line st
  | ⟨.assign name value, line⟩, st =>
    (ev value st).andThen fun value st => p.assignName name value line st

/-- Evaluate an expression, following at most the given number of references in a row. -/
def evalWithin (p : Program) : Nat → NodeId → State → Outcome Value
  | 0, _, st => .fail .tooDeep st
  | depth + 1, id, st =>
    match p.arena.get? id with
    | none => .fail (p.missing id) st
    | some ⟨form, line⟩ =>
      match form with
      | .literal literal => .done (p.literalValue literal) st
      | .grouping inner => p.evalWithin depth inner st
      | .unary op operand =>
        (p.evalWithin depth operand st).andThen fun value st => st.applyUnary op value line
      | .binary op left right =>
        (p.evalWithin depth left st).andThen fun leftValue st =>
          (p.evalWithin depth right st).andThen fun rightValue st =>
            st.applyBinary op leftValue rightValue line
      | .read name => p.readName name line st
      | .assign name value =>
        (p.evalWithin depth value st).andThen fun value st => p.assignName name value line st

/-- The number of references that suffices for an arena without cycles. -/
def maxDepth (p : Program) : Nat := p.arena.size + 1

end Program

end ScriptCore
