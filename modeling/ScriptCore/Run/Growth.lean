/-
The native stack under a run.

Evaluation calls itself for every operand and every statement of a block, and a call takes a frame
of the native stack. Before an expression or a statement is gone into, the room that is left in the
current segment of the stack is looked at. If the room is known and less than the red zone, an event
says that the stack grows; then the work goes on wherever the stack provides for it.

Frames, segments and what can be known of them belong to the machine, so the stack is a parameter
here (`NativeStack`). Apart from the events a run on a stack does what a run does, and
`ScriptCore.Proofs.StackGrowth` says so.
-/
import ScriptCore.Run.Statement

set_option autoImplicit false

namespace ScriptCore

/-- The bytes below which the room in a segment is too little to go on. -/
def redZone : Nat := 65536

/-- The bytes of a segment that is added to the stack. -/
def newSegment : Nat := 1048576

/-- The routines that take a frame when they are called. -/
inductive Routine where
  | interpret
  | execute
  | executeBlock
  | evaluate
  | evaluateNode

/-- A native stack, as far as the evaluator makes use of it. -/
structure NativeStack where
  /-- Where on the stack a routine stands. -/
  Place : Type
  /-- The bytes left in the segment, unless they cannot be told. -/
  room? : Place → Option Nat
  /-- Where a routine stands that is called from a place. -/
  call : Routine → Place → Place
  /-- Where work goes on that needs more room than the red zone, with a new segment of the given
  size if need be. -/
  grow : Nat → Nat → Place → Place

namespace NativeStack

variable {α : Type}

/-- The room is known, and it is too little. -/
def short (stack : NativeStack) (place : stack.Place) : Bool :=
  (stack.room? place).any (· < redZone)

/-- Go on with enough room, and say so if the stack grows for it. -/
def ensuring (stack : NativeStack) (place : stack.Place) (st : State)
    (next : stack.Place → State → Outcome α) : Outcome α :=
  next (stack.grow redZone newSegment place)
    (if stack.short place then st.record (.stackGrown newSegment) else st)

end NativeStack

namespace Program

variable (p : Program) (stack : NativeStack)

/-- Evaluate an expression on the stack, following at most the given number of references in a
row. -/
def evalWithinOn : Nat → NodeId → stack.Place → State → Outcome Value
  | 0, _, _, st => .fail .tooDeep st
  | depth + 1, id, place, st =>
    stack.ensuring (stack.call .evaluate place) st fun place st =>
      match p.arena.get? id with
      | none => .fail (p.missing id) st
      | some node =>
        p.evalNode (fun id st => evalWithinOn depth id (stack.call .evaluateNode place) st) node st

/-- Evaluate an expression of the arena on the stack. -/
def evaluateOn (id : NodeId) (place : stack.Place) (st : State) : Outcome Value :=
  p.evalWithinOn stack p.maxDepth id place st

/-- The value a declaration binds, evaluated on the stack. -/
def initialValueOn (init : Option NodeId) (place : stack.Place) (st : State) : Outcome Value :=
  match init with
  | some id => p.evaluateOn stack id place st
  | none => .done .nil st

mutual

/-- Run one statement on the stack. -/
def executeOn (stmt : Stmt) (place : stack.Place) (st : State) : Outcome Unit :=
  stack.ensuring (stack.call .execute place) st fun place st =>
    match stmt with
    | .expression id _ => (p.evaluateOn stack id place st).andThen fun _ st => .done () st
    | .print id _ =>
      (p.evaluateOn stack id place st).andThen fun value st => .done () (st.printLine value.text)
    | .declare name init _ =>
      (p.initialValueOn stack init place st).andThen fun value st => .done () (st.define name value)
    | .block body _ => (executeAllOn body (stack.call .executeBlock place) st.enterBlock).closeScope

/-- Run statements in order, up to the first failure. All are called from one place. -/
def executeAllOn (stmts : List Stmt) (place : stack.Place) (st : State) : Outcome Unit :=
  match stmts with
  | [] => .done () st
  | stmt :: rest => (executeOn stmt place st).andThen fun _ st => executeAllOn rest place st

end

/-- Run statements on the stack in a scope of their own. -/
def executeBlockOn (body : List Stmt) (place : stack.Place) (st : State) : Outcome Unit :=
  (p.executeAllOn stack body (stack.call .executeBlock place) st.enterBlock).closeScope

/-- Run a program on the stack, with a report of the error if one ends it. -/
def interpretOn (stmts : List Stmt) (place : stack.Place) (st : State) : Outcome Unit :=
  let o :=
    p.executeAllOn stack stmts (stack.call .interpret place) (st.record (.started stmts.length))
  match o.result with
  | .error (.error e) => ⟨o.result, (o.state.record (.failed e)).reportLine e.text⟩
  | _ => o

end Program

end ScriptCore
