/-
What a run works on and what it leaves.

A program is a table of names and an arena of expressions, and a run only reads it. The state is
what a run changes: the environment, the output and the trace. An outcome always carries the state
along with the result, so what was done before a failure stays done.
-/
import ScriptCore.NameTable.Basic
import ScriptCore.Program.Stmt
import ScriptCore.Env
import ScriptCore.Output
import ScriptCore.Trace
import ScriptCore.Operation

set_option autoImplicit false

namespace ScriptCore

/-- The part of a program that its statements refer to. -/
structure Program where
  names : NameTable
  arena : Arena

/-- Why a run ended early. -/
inductive Halt where
  /-- A runtime error of the language. -/
  | error (error : EvalError)
  /-- A reference to an expression that an arena of this size does not hold. -/
  | missing (size : Nat) (id : NodeId)
  /-- References were followed deeper than an arena without cycles allows. -/
  | tooDeep
deriving DecidableEq, Repr

/-- The sentence that states why a run ended. -/
def Halt.message : Halt → String
  | error e => e.text
  | missing size id =>
    "index out of bounds: the len is " ++ toString size ++ " but the index is " ++
      toString id.index
  | tooDeep => "expressions refer to each other in a cycle"

/-- The failure that an operator or a variable of the given line raises. -/
def Fault.raisedAt (fault : Fault) (line : Nat) : Halt :=
  .error ((EvalError.ofFault fault).atLine line)

/-- What a run changes. -/
structure State where
  env : Env
  output : Output
  trace : Array Event

/-- The result of a run, and the state it ended in, failed or not. -/
structure Outcome (α : Type) where
  result : Except Halt α
  state : State

namespace Outcome

variable {α β γ : Type}

/-- A result without an effect. -/
def done (a : α) (st : State) : Outcome α := ⟨.ok a, st⟩

/-- A failure without an effect. -/
def fail (h : Halt) (st : State) : Outcome α := ⟨.error h, st⟩

/-- Go on from a result; a failure ends the run where it is. -/
@[inline] def andThen (o : Outcome α) (next : α → State → Outcome β) : Outcome β :=
  match o with
  | ⟨.ok a, st⟩ => next a st
  | ⟨.error h, st⟩ => ⟨.error h, st⟩

@[simp] theorem done_andThen (a : α) (st : State) (next : α → State → Outcome β) :
    (done a st).andThen next = next a st := rfl

@[simp] theorem fail_andThen (h : Halt) (st : State) (next : α → State → Outcome β) :
    (fail h st).andThen next = fail h st := rfl

@[simp] theorem andThen_done (o : Outcome α) : o.andThen done = o := by
  obtain ⟨_ | _, st⟩ := o <;> rfl

@[simp] theorem andThen_assoc (o : Outcome α) (f : α → State → Outcome β)
    (g : β → State → Outcome γ) :
    (o.andThen f).andThen g = o.andThen fun a st => (f a st).andThen g := by
  obtain ⟨_ | _, st⟩ := o <;> rfl

end Outcome

namespace State

/-- The root scope, the given sink, and no events. -/
def new (sink : Sink) : State := ⟨.new, .new sink, #[]⟩

/-- Add an event to the trace. -/
def record (st : State) (event : Event) : State := { st with trace := st.trace.push event }

/-- Open a scope. -/
def openScope (st : State) : State := { st with env := st.env.push }

/-- Close the current scope and say so. -/
def closeScope (st : State) : State :=
  let env := st.env.pop
  { st with env, trace := st.trace.push (.blockLeft env.depth) }

/-- Open the scope of a block and say so. -/
def enterBlock (st : State) : State :=
  let st := st.openScope
  st.record (.blockEntered st.env.depth)

/-- Print a line. -/
def printLine (st : State) (line : String) : State :=
  { st with output := st.output.printLine line }

/-- Report a line. -/
def reportLine (st : State) (line : String) : State :=
  { st with output := st.output.reportLine line }

/-- Bind a name in the current scope. -/
def define (st : State) (name : Name) (value : Value) : State :=
  { st with env := st.env.define name value }

/-! Which of the three parts a step touches. -/

section Parts

variable (st : State) (event : Event) (line : String) (name : Name) (value : Value)

@[simp] theorem env_record : (st.record event).env = st.env := rfl

@[simp] theorem env_printLine : (st.printLine line).env = st.env := rfl

@[simp] theorem env_reportLine : (st.reportLine line).env = st.env := rfl

@[simp] theorem env_define : (st.define name value).env = st.env.define name value := rfl

@[simp] theorem env_enterBlock : st.enterBlock.env = st.env.push := rfl

@[simp] theorem env_closeScope : st.closeScope.env = st.env.pop := rfl

@[simp] theorem output_record : (st.record event).output = st.output := rfl

@[simp] theorem output_printLine : (st.printLine line).output = st.output.printLine line := rfl

@[simp] theorem output_reportLine : (st.reportLine line).output = st.output.reportLine line := rfl

@[simp] theorem output_define : (st.define name value).output = st.output := rfl

@[simp] theorem output_enterBlock : st.enterBlock.output = st.output := rfl

@[simp] theorem output_closeScope : st.closeScope.output = st.output := rfl

end Parts

end State

end ScriptCore
