/-
Runs on a stack are runs.

A run on a native stack records an event wherever the stack grows, and is otherwise the run that
takes no notice of the stack. One induction compares the two, through a choice of events to look at
(`State.keeping`): every event of the program is among them, and growth is among them only if the
stack is never short (`NativeStack.Overlooks`).

Looking away from growth, the two are the same on every stack (`runs_ignore_stack`). Looking at all
events, they are the same on a stack that never runs short (`runs_of_roomy`).
-/
import ScriptCore.Proofs.Acyclic
import ScriptCore.Run.Growth

set_option autoImplicit false

namespace ScriptCore

/-! ## Some of the events -/

/-- The event is about the stack and not about the program. -/
def Event.isGrowth : Event → Bool
  | stackGrown _ => true
  | _ => false

/-- The state with some of its events only. -/
def State.keeping (keep : Event → Bool) (st : State) : State :=
  { st with trace := st.trace.filter keep }

/-- The outcome with some of its events only. -/
def Outcome.keeping {α : Type} (keep : Event → Bool) (o : Outcome α) : Outcome α :=
  { o with state := o.state.keeping keep }

/-- The state but for the growth of the stack: the environment, the output and all other events. -/
def State.withoutGrowth (st : State) : State := st.keeping fun event => !event.isGrowth

/-- The outcome but for the growth of the stack. -/
def Outcome.withoutGrowth {α : Type} (o : Outcome α) : Outcome α :=
  { o with state := o.state.withoutGrowth }

/-- The choice has all events of the program, and growth only if the stack is never short. -/
structure NativeStack.Overlooks (stack : NativeStack) (keep : Event → Bool) : Prop where
  program : ∀ event, event.isGrowth = false → keep event = true
  growth : ∀ place, stack.short place = true → keep (.stackGrown newSegment) = false

section Keeping

variable {α β : Type} {keep : Event → Bool}

theorem State.env_keeping (st : State) : (st.keeping keep).env = st.env := rfl

theorem State.keeping_record {event : Event} (h : keep event = true) (st : State) :
    (st.record event).keeping keep = (st.keeping keep).record event := by
  simp [keeping, record, h]

theorem State.keeping_record_of_not {event : Event} (h : keep event = false) (st : State) :
    (st.record event).keeping keep = st.keeping keep := by
  simp [keeping, record, h]

theorem State.keeping_all (st : State) : st.keeping (fun _ => true) = st := by
  have htrace : st.trace.filter (fun _ => true) = st.trace :=
    Array.filter_eq_self.2 fun _ _ => rfl
  rw [keeping, htrace]

theorem Outcome.keeping_all (o : Outcome α) : o.keeping (fun _ => true) = o := by
  simp [keeping, State.keeping_all]

/-- What is done next shows the same events, and so does the whole. -/
theorem Outcome.keeping_andThen {o : Outcome α} {next next' : α → State → Outcome β}
    (h : ∀ a st, (next a st).keeping keep = next' a (st.keeping keep)) :
    (o.andThen next).keeping keep = (o.keeping keep).andThen next' := by
  obtain ⟨_ | a, st⟩ := o
  · rfl
  · exact h a st

end Keeping

/-! ## One step -/

namespace NativeStack.Overlooks

variable {α : Type} {stack : NativeStack} {keep : Event → Bool}

/-- Whatever is done with enough room is done alike: if the stack grows, nobody looks. -/
theorem ensuring (h : stack.Overlooks keep) {next : stack.Place → State → Outcome α}
    {f : State → Outcome α}
    (hnext : ∀ place st, (next place st).keeping keep = f (st.keeping keep))
    (place : stack.Place) (st : State) :
    (stack.ensuring place st next).keeping keep = f (st.keeping keep) := by
  rw [NativeStack.ensuring, hnext]
  by_cases hshort : stack.short place = true
  · rw [if_pos hshort, State.keeping_record_of_not (h.growth place hshort)]
  · rw [if_neg hshort]

theorem applyUnary (h : stack.Overlooks keep) (op : UnaryOp) (v : Value) (line : Nat) (st : State) :
    (st.applyUnary op v line).keeping keep = (st.keeping keep).applyUnary op v line := by
  rw [State.applyUnary, State.applyUnary]
  rcases op.apply v with fault | value
  · exact congrArg (Outcome.fail _) (State.keeping_record (h.program _ rfl) st)
  · rfl

theorem applyBinary (h : stack.Overlooks keep) (op : BinaryOp) (left right : Value) (line : Nat)
    (st : State) :
    (st.applyBinary op left right line).keeping keep =
      (st.keeping keep).applyBinary op left right line := by
  rw [State.applyBinary, State.applyBinary]
  rcases op.apply left right with fault | value
  · exact congrArg (Outcome.fail _) (State.keeping_record (h.program _ rfl) st)
  · rfl

theorem enterBlock (h : stack.Overlooks keep) (st : State) :
    st.enterBlock.keeping keep = (st.keeping keep).enterBlock :=
  State.keeping_record (h.program _ rfl) st.openScope

theorem closeScope (h : stack.Overlooks keep) (o : Outcome α) :
    o.closeScope.keeping keep = (o.keeping keep).closeScope :=
  congrArg (Outcome.mk o.result)
    (State.keeping_record (h.program _ rfl) { o.state with env := o.state.env.pop })

end NativeStack.Overlooks

namespace Program

variable {keep : Event → Bool}

theorem keeping_readName (p : Program) (name : Name) (line : Nat) (st : State) :
    (p.readName name line st).keeping keep = p.readName name line (st.keeping keep) := by
  rw [readName, readName, State.env_keeping]
  rcases st.env.get name line with unbound | value
  · rfl
  · rfl

theorem keeping_assignName (p : Program) (name : Name) (value : Value) (line : Nat) (st : State) :
    (p.assignName name value line st).keeping keep =
      p.assignName name value line (st.keeping keep) := by
  rw [assignName, assignName, State.env_keeping]
  rcases st.env.assign name value line with unbound | env
  · rfl
  · rfl

end Program

/-! ## Whole runs -/

namespace Program

variable {stack : NativeStack} {keep : Event → Bool}

section Overlooking

variable (p : Program) (h : stack.Overlooks keep)

include h

/-- A node does the same with operands that show the same events. -/
theorem keeping_evalNode {ev ev' : NodeId → State → Outcome Value}
    (hev : ∀ id st, (ev id st).keeping keep = ev' id (st.keeping keep)) (node : Node) (st : State) :
    (p.evalNode ev node st).keeping keep = p.evalNode ev' node (st.keeping keep) := by
  obtain ⟨form, line⟩ := node
  cases form with
  | literal l => rfl
  | grouping inner => exact hev inner st
  | unary op operand =>
    rw [evalNode, evalNode, ← hev]
    exact Outcome.keeping_andThen fun v st => h.applyUnary op v line st
  | binary op left right =>
    -- The right operand goes on from the state that the left one has left.
    rw [evalNode, evalNode, ← hev]
    refine Outcome.keeping_andThen fun l st => ?_
    rw [← hev]
    exact Outcome.keeping_andThen fun r st => h.applyBinary op l r line st
  | read name => exact p.keeping_readName name line st
  | assign name value =>
    rw [evalNode, evalNode, ← hev]
    exact Outcome.keeping_andThen fun v st => p.keeping_assignName name v line st

/-- The induction is on the depth, as the recursion is. -/
theorem keeping_evalWithinOn (depth : Nat) (id : NodeId) (place : stack.Place) (st : State) :
    (p.evalWithinOn stack depth id place st).keeping keep =
      p.evalWithin depth id (st.keeping keep) := by
  induction depth generalizing id place st with
  | zero => rfl
  | succ depth ih =>
    -- The check for room comes first; behind it the operands are a depth less to go.
    rw [evalWithinOn, evalWithin_succ]
    rcases p.arena.get? id with _ | node
    · exact h.ensuring (f := .fail (p.missing id)) (fun _ _ => rfl) _ st
    · exact h.ensuring (f := p.evalNode (p.evalWithin depth) node)
        (fun _ st => keeping_evalNode p h (fun id st => ih id _ st) node st) _ st

theorem keeping_evaluateOn (id : NodeId) (place : stack.Place) (st : State) :
    (p.evaluateOn stack id place st).keeping keep = p.evaluate id (st.keeping keep) := by
  rw [evaluateOn, keeping_evalWithinOn p h, evaluate_eq_evalWithin]

theorem keeping_initialValueOn (init : Option NodeId) (place : stack.Place) (st : State) :
    (p.initialValueOn stack init place st).keeping keep =
      p.initialValue init (st.keeping keep) := by
  rcases init with _ | id
  · rfl
  · exact keeping_evaluateOn p h id place st

end Overlooking

mutual

/-- The induction is on the statement, and the place is of no account: every form is behind a check
for room, and what is behind it is the form of a run. -/
theorem keeping_executeOn (p : Program) (h : stack.Overlooks keep) : (stmt : Stmt) →
    (place : stack.Place) → (st : State) →
    (p.executeOn stack stmt place st).keeping keep = p.execute stmt (st.keeping keep)
  | .expression id line, place, st => by
    rw [executeOn]
    refine h.ensuring (fun place st => ?_) _ st
    rw [execute, ← keeping_evaluateOn p h id place]
    exact Outcome.keeping_andThen fun _ _ => rfl
  | .print id line, place, st => by
    rw [executeOn]
    refine h.ensuring (fun place st => ?_) _ st
    rw [execute, ← keeping_evaluateOn p h id place]
    exact Outcome.keeping_andThen fun _ _ => rfl
  | .declare name init line, place, st => by
    rw [executeOn]
    refine h.ensuring (fun place st => ?_) _ st
    rw [execute, ← keeping_initialValueOn p h init place]
    exact Outcome.keeping_andThen fun _ _ => rfl
  | .block body line, place, st => by
    rw [executeOn]
    refine h.ensuring (fun place st => ?_) _ st
    rw [execute, h.closeScope, keeping_executeAllOn p h body, h.enterBlock]

theorem keeping_executeAllOn (p : Program) (h : stack.Overlooks keep) : (stmts : List Stmt) →
    (place : stack.Place) → (st : State) →
    (p.executeAllOn stack stmts place st).keeping keep = p.executeAll stmts (st.keeping keep)
  | [], place, st => by
    rw [executeAllOn, executeAll]
    rfl
  | stmt :: rest, place, st => by
    rw [executeAllOn, executeAll, ← keeping_executeOn p h stmt place]
    exact Outcome.keeping_andThen fun _ st => keeping_executeAllOn p h rest place st

end

theorem keeping_executeBlockOn (p : Program) (h : stack.Overlooks keep) (body : List Stmt)
    (place : stack.Place) (st : State) :
    (p.executeBlockOn stack body place st).keeping keep =
      p.executeBlock body (st.keeping keep) := by
  rw [executeBlockOn, executeBlock, h.closeScope, keeping_executeAllOn p h, h.enterBlock]

/-- The event of the start is the program's, and so is that of an error at the end. -/
theorem keeping_interpretOn (p : Program) (h : stack.Overlooks keep) (stmts : List Stmt)
    (place : stack.Place) (st : State) :
    (p.interpretOn stack stmts place st).keeping keep = p.interpret stmts (st.keeping keep) := by
  have hstart := State.keeping_record (h.program (.started stmts.length) rfl) st
  have hstmts := keeping_executeAllOn p h stmts (stack.call .interpret place)
  rw [interpretOn, interpret, ← hstart, ← hstmts]
  generalize p.executeAllOn stack stmts _ _ = o
  -- Only an error is recorded and reported.
  obtain ⟨(e | _ | _) | _, last⟩ := o
  · have hend := State.keeping_record (h.program (.failed e) rfl) last
    exact congrArg (fun st : State => Outcome.mk _ (st.reportLine e.text)) hend
  · rfl
  · rfl
  · rfl

/-- Looking away from growth is allowed on every stack. -/
theorem overlooks_growth (stack : NativeStack) : stack.Overlooks fun event => !event.isGrowth where
  program := by
    intro event hevent
    rw [hevent]
    rfl
  growth _ _ := rfl

/-- Where the stack is never short, all events may be looked at. -/
theorem overlooks_nothing {stack : NativeStack} (hroom : ∀ place, stack.short place = false) :
    stack.Overlooks fun _ => true where
  program _ _ := rfl
  growth := by
    intro place hshort
    rw [hroom] at hshort
    cases hshort

/-- **Growth aside, the stack has no say.** On every stack and from every place on it, a run is the
run that takes no notice of the stack, but for the events of growth. -/
theorem runs_ignore_stack (p : Program) (stack : NativeStack) (place : stack.Place) (st : State) :
    (∀ id, (p.evaluateOn stack id place st).withoutGrowth = p.evaluate id st.withoutGrowth) ∧
      (∀ stmt, (p.executeOn stack stmt place st).withoutGrowth = p.execute stmt st.withoutGrowth) ∧
      (∀ body, (p.executeBlockOn stack body place st).withoutGrowth =
        p.executeBlock body st.withoutGrowth) ∧
      ∀ stmts, (p.interpretOn stack stmts place st).withoutGrowth =
        p.interpret stmts st.withoutGrowth := by
  have h := overlooks_growth stack
  exact ⟨fun id => keeping_evaluateOn p h id place st,
    fun stmt => keeping_executeOn p h stmt place st,
    fun body => keeping_executeBlockOn p h body place st,
    fun stmts => keeping_interpretOn p h stmts place st⟩

/-- **With room enough nothing is added.** On a stack that is never short, a run is the run that
takes no notice of it. -/
theorem runs_of_roomy (p : Program) {stack : NativeStack}
    (hroom : ∀ place, stack.short place = false) (place : stack.Place) (st : State) :
    (∀ id, p.evaluateOn stack id place st = p.evaluate id st) ∧
      (∀ stmt, p.executeOn stack stmt place st = p.execute stmt st) ∧
      (∀ body, p.executeBlockOn stack body place st = p.executeBlock body st) ∧
      ∀ stmts, p.interpretOn stack stmts place st = p.interpret stmts st := by
  have h := overlooks_nothing hroom
  refine ⟨fun id => ?_, fun stmt => ?_, fun body => ?_, fun stmts => ?_⟩
  · simpa only [Outcome.keeping_all, State.keeping_all] using keeping_evaluateOn p h id place st
  · simpa only [Outcome.keeping_all, State.keeping_all] using keeping_executeOn p h stmt place st
  · simpa only [Outcome.keeping_all, State.keeping_all] using
      keeping_executeBlockOn p h body place st
  · simpa only [Outcome.keeping_all, State.keeping_all] using
      keeping_interpretOn p h stmts place st

end Program

end ScriptCore
