/-
What a run reads and what it writes.

Of the three parts of a state, a run reads the environment alone. Lines go to the output and events
to the trace, behind whatever is there already, and nothing in them is ever looked at. So the
environment a run starts from settles everything it does: its result, the environment it leaves,
the lines and the events. From another state with that environment it does the same.

`ReadsEnv` says so, and bounds the lines a run may write. Going on from one such run to another is
again such a run (`ReadsEnv.andThen`), which carries the property from the operators through
expressions, which write nothing at all, to statements, which never report, and to whole programs,
which report an error at their end (`Outcome.reported`).
-/
import ScriptCore.Proofs.TreeRefinement

set_option autoImplicit false

namespace ScriptCore

namespace State

/-- The state with another environment, further lines and further events. -/
def extend (st : State) (env : Env) (lines : List Line) (events : List Event) : State :=
  ⟨env, st.output.writeAll lines, st.trace ++ events.toArray⟩

theorem extend_self (st : State) : st.extend st.env [] [] = st := by
  unfold extend
  simp only [Array.append_empty]
  rfl

theorem extend_extend (st : State) (env env' : Env) (lines lines' : List Line)
    (events events' : List Event) :
    (st.extend env lines events).extend env' lines' events' =
      st.extend env' (lines ++ lines') (events ++ events') := by
  unfold extend
  simp only [Output.writeAll_append, Array.append_assoc, List.append_toArray]

/-- The environment alone decides what the change does, and only allowed lines are written. -/
def ChangesBy (allowed : Line → Prop) (change : State → State) : Prop :=
  ∀ env, ∃ env' lines events, (∀ line ∈ lines, allowed line) ∧
    ∀ st : State, st.env = env → change st = st.extend env' lines events

end State

/-- The environment alone decides how the run ends and what it writes, and only allowed lines are
written. -/
def ReadsEnv {α : Type} (allowed : Line → Prop) (run : State → Outcome α) : Prop :=
  ∀ env, ∃ result env' lines events, (∀ line ∈ lines, allowed line) ∧
    ∀ st : State, st.env = env → run st = ⟨result, st.extend env' lines events⟩

/-- The outcomes differ in the trace at most. -/
structure Outcome.Alike {α : Type} (o o' : Outcome α) : Prop where
  result : o.result = o'.result
  env : o.state.env = o'.state.env
  output : o.state.output = o'.state.output

namespace ReadsEnv

variable {α β : Type} {allowed : Line → Prop}

theorem congr {run run' : State → Outcome α} (h : ReadsEnv allowed run)
    (heq : ∀ st, run' st = run st) : ReadsEnv allowed run' := by
  have hsame : run' = run := funext heq
  rwa [hsame]

theorem pure (result : Except Halt α) : ReadsEnv allowed fun st => ⟨result, st⟩ := by
  intro env
  refine ⟨result, env, [], [], nofun, fun st hst => ?_⟩
  rw [← hst, State.extend_self]

/-- One run after another. -/
theorem andThen {run : State → Outcome α} {next : α → State → Outcome β}
    (h : ReadsEnv allowed run) (hnext : ∀ a, ReadsEnv allowed (next a)) :
    ReadsEnv allowed fun st => (run st).andThen next := by
  intro env
  obtain ⟨result, env', lines, events, hlines, hrun⟩ := h env
  rcases result with halt | a
  · refine ⟨.error halt, env', lines, events, hlines, fun st hst => ?_⟩
    simp only [hrun st hst, Outcome.andThen]
  · obtain ⟨result', env'', lines', events', hlines', hlast⟩ := hnext a env'
    refine ⟨result', env'', lines ++ lines', events ++ events',
      List.forall_mem_append.2 ⟨hlines, hlines'⟩, fun st hst => ?_⟩
    simp only [hrun st hst, Outcome.andThen]
    rw [hlast (st.extend env' lines events) rfl, State.extend_extend]

/-- A run followed by a change. -/
theorem mapState {run : State → Outcome α} (h : ReadsEnv allowed run) {change : State → State}
    (hchange : State.ChangesBy allowed change) :
    ReadsEnv allowed fun st => { run st with state := change (run st).state } := by
  intro env
  obtain ⟨result, env', lines, events, hlines, hrun⟩ := h env
  obtain ⟨env'', lines', events', hlines', hlast⟩ := hchange env'
  refine ⟨result, env'', lines ++ lines', events ++ events',
    List.forall_mem_append.2 ⟨hlines, hlines'⟩, fun st hst => ?_⟩
  simp only [hrun st hst]
  rw [hlast (st.extend env' lines events) rfl, State.extend_extend]

/-- From two states that differ in the trace, a run leads to outcomes that differ in the trace. -/
theorem alike {run : State → Outcome α} (h : ReadsEnv allowed run) {st st' : State}
    (henv : st.env = st'.env) (houtput : st.output = st'.output) :
    (run st).Alike (run st') := by
  obtain ⟨result, env', lines, events, -, hrun⟩ := h st'.env
  rw [hrun st henv, hrun st' rfl]
  exact ⟨rfl, rfl, congrArg (·.writeAll lines) houtput⟩

/-- A run that may write no line leaves the output. -/
theorem output_eq {run : State → Outcome α} (h : ReadsEnv (fun _ => False) run) (st : State) :
    (run st).state.output = st.output := by
  obtain ⟨result, env', lines, events, hlines, hrun⟩ := h st.env
  have hnone : lines = [] := List.eq_nil_iff_forall_not_mem.2 hlines
  rw [hrun st rfl, hnone]
  rfl

end ReadsEnv

/-! ## The steps of a run -/

namespace State

variable {allowed : Line → Prop}

theorem changesBy_enterBlock : ChangesBy allowed enterBlock := by
  intro env
  refine ⟨env.push, [], [.blockEntered env.push.depth], nofun, fun st hst => ?_⟩
  rw [← hst]
  rfl

theorem changesBy_closeScope : ChangesBy allowed closeScope := by
  intro env
  refine ⟨env.pop, [], [.blockLeft env.pop.depth], nofun, fun st hst => ?_⟩
  rw [← hst]
  rfl

theorem changesBy_record (event : Event) : ChangesBy allowed (·.record event) := by
  intro env
  refine ⟨env, [], [event], nofun, fun st hst => ?_⟩
  rw [← hst]
  rfl

theorem changesBy_printLine {text : String} (h : allowed (.printed text)) :
    ChangesBy allowed (·.printLine text) := by
  intro env
  refine ⟨env, [.printed text], [], fun line hline => ?_, fun st hst => ?_⟩
  · rwa [List.mem_singleton.1 hline]
  · rw [← hst]
    exact (extend_self (st.printLine text)).symm

theorem changesBy_define (name : Name) (value : Value) :
    ChangesBy allowed (·.define name value) := by
  intro env
  refine ⟨env.define name value, [], [], nofun, fun st hst => ?_⟩
  rw [← hst]
  exact (extend_self (st.define name value)).symm

variable (line : Nat)

theorem readsEnv_applyUnary (op : UnaryOp) (v : Value) :
    ReadsEnv allowed fun st => st.applyUnary op v line := by
  unfold applyUnary
  rcases op.apply v with fault | value
  · intro env
    refine ⟨.error (fault.raisedAt line), env, [], [.unaryRefused op v.kind line], nofun,
      fun st hst => ?_⟩
    rw [← hst]
    rfl
  · exact .pure (.ok value)

theorem readsEnv_applyBinary (op : BinaryOp) (l r : Value) :
    ReadsEnv allowed fun st => st.applyBinary op l r line := by
  unfold applyBinary
  rcases op.apply l r with fault | value
  · intro env
    refine ⟨.error (fault.raisedAt line), env, [], [.binaryRefused op l.kind r.kind line], nofun,
      fun st hst => ?_⟩
    rw [← hst]
    rfl
  · exact .pure (.ok value)

end State

namespace Program

variable {allowed : Line → Prop} (p : Program)

theorem readsEnv_readName (name : Name) (line : Nat) :
    ReadsEnv allowed (p.readName name line) := by
  intro env
  rcases hget : env.get name line with unbound | v
  · refine ⟨.error (p.undefined unbound), env, [], [], nofun, fun st hst => ?_⟩
    rw [← hst, State.extend_self, readName, hst, hget]
    rfl
  · refine ⟨.ok v, env, [], [], nofun, fun st hst => ?_⟩
    rw [← hst, State.extend_self, readName, hst, hget]
    rfl

theorem readsEnv_assignName (name : Name) (v : Value) (line : Nat) :
    ReadsEnv allowed (p.assignName name v line) := by
  intro env
  rcases hassign : env.assign name v line with unbound | env'
  · refine ⟨.error (p.undefined unbound), env, [], [], nofun, fun st hst => ?_⟩
    rw [← hst, State.extend_self, assignName, hst, hassign]
    rfl
  · refine ⟨.ok v, env', [], [], nofun, fun st hst => ?_⟩
    rw [assignName, hst, hassign]
    exact congrArg (Outcome.mk _) (State.extend_self ⟨env', st.output, st.trace⟩).symm

/-! ## Runs -/

theorem readsEnv_evalWithin (depth : Nat) (id : NodeId) :
    ReadsEnv allowed (p.evalWithin depth id) := by
  induction depth generalizing id with
  | zero => exact .pure (.error .tooDeep)
  | succ depth ih =>
    refine ReadsEnv.congr ?_ (p.evalWithin_succ depth id)
    rcases p.arena.get? id with _ | ⟨form, line⟩
    · exact .pure (.error (p.missing id))
    · cases form with
      | literal literal => exact .pure (.ok (p.literalValue literal))
      | grouping inner => exact ih inner
      | unary op operand => exact (ih operand).andThen fun v => State.readsEnv_applyUnary line op v
      | binary op left right =>
        exact (ih left).andThen fun l => (ih right).andThen fun r =>
          State.readsEnv_applyBinary line op l r
      | read name => exact p.readsEnv_readName name line
      | assign name value =>
        exact (ih value).andThen fun v => p.readsEnv_assignName name v line

/-- An expression may write no line. -/
theorem readsEnv_evaluate (id : NodeId) : ReadsEnv allowed (p.evaluate id) :=
  (p.readsEnv_evalWithin p.maxDepth id).congr (p.evaluate_eq_evalWithin id)

theorem readsEnv_initialValue (init : Option NodeId) : ReadsEnv allowed (p.initialValue init) := by
  rcases init with _ | id
  · exact .pure (.ok Value.nil)
  · exact p.readsEnv_evaluate id

/-- A run that does nothing but change the state. -/
theorem readsEnv_change {change : State → State} (h : State.ChangesBy allowed change) :
    ReadsEnv allowed fun st => .done () (change st) :=
  (ReadsEnv.pure (.ok ())).mapState h

mutual

/-- A statement may print. -/
theorem readsEnv_execute (hprint : ∀ text, allowed (.printed text)) :
    (stmt : Stmt) → ReadsEnv allowed (p.execute stmt)
  | .expression id _ => by
    refine ReadsEnv.congr ?_ fun st => by rw [execute]
    exact (p.readsEnv_evaluate id).andThen fun _ => .pure (.ok ())
  | .print id _ => by
    refine ReadsEnv.congr ?_ fun st => by rw [execute]
    exact (p.readsEnv_evaluate id).andThen fun v =>
      readsEnv_change (State.changesBy_printLine (hprint v.text))
  | .declare name init _ => by
    refine ReadsEnv.congr ?_ fun st => by rw [execute]
    exact (p.readsEnv_initialValue init).andThen fun v =>
      readsEnv_change (State.changesBy_define name v)
  | .block body _ => by
    refine ReadsEnv.congr ?_ fun st => by rw [execute]
    have hbody : ReadsEnv allowed fun st => p.executeAll body st.enterBlock :=
      (readsEnv_change State.changesBy_enterBlock).andThen fun _ =>
        readsEnv_executeAll hprint body
    exact hbody.mapState State.changesBy_closeScope

/-- The environment alone decides how statements run. -/
theorem readsEnv_executeAll (hprint : ∀ text, allowed (.printed text)) :
    (stmts : List Stmt) → ReadsEnv allowed (p.executeAll stmts)
  | [] => (ReadsEnv.pure (.ok ())).congr p.executeAll_nil
  | stmt :: rest => by
    have h := (readsEnv_execute hprint stmt).andThen fun _ => readsEnv_executeAll hprint rest
    exact h.congr (p.executeAll_cons stmt rest)

end

theorem readsEnv_executeBlock (hprint : ∀ text, allowed (.printed text)) (body : List Stmt) :
    ReadsEnv allowed (p.executeBlock body) :=
  -- A block is a statement, on whatever line.
  (p.readsEnv_execute hprint (.block body 0)).congr fun st => (p.execute_block body 0 st).symm

theorem output_evaluate (id : NodeId) (st : State) :
    (p.evaluate id st).state.output = st.output :=
  (p.readsEnv_evaluate id).output_eq st

end Program

/-! ## The end of a program -/

namespace Outcome

/-- An error that has ended the run is recorded and reported. -/
def reported (o : Outcome Unit) : Outcome Unit :=
  match o.result with
  | .error (.error e) => ⟨o.result, (o.state.record (.failed e)).reportLine e.text⟩
  | _ => o

/-- The event that the end of a run is recorded by; only an error has one. -/
def failures (o : Outcome Unit) : List Event :=
  match o.result with
  | .error (.error e) => [.failed e]
  | _ => []

theorem trace_reported (o : Outcome Unit) :
    o.reported.state.trace = o.state.trace ++ o.failures.toArray := by
  obtain ⟨halt | _, st⟩ := o
  · rcases halt with e | ⟨size, id⟩ | _
    · exact Array.push_eq_append
    · exact Array.append_empty.symm
    · exact Array.append_empty.symm
  · exact Array.append_empty.symm

/-- Reporting makes no difference between runs that have ended alike. -/
theorem Alike.reported {o o' : Outcome Unit} (h : o.Alike o') : o.reported.Alike o'.reported := by
  obtain ⟨hresult, henv, houtput⟩ := h
  unfold Outcome.reported
  rw [hresult]
  split
  · next e _ => exact ⟨rfl, henv, congrArg (·.reportLine e.text) houtput⟩
  · exact ⟨hresult, henv, houtput⟩

end Outcome

theorem ReadsEnv.reported {allowed : Line → Prop} {run : State → Outcome Unit}
    (h : ReadsEnv allowed run) (hreport : ∀ text, allowed (.reported text)) :
    ReadsEnv allowed fun st => (run st).reported := by
  intro env
  obtain ⟨result, env', lines, events, hlines, hrun⟩ := h env
  have hlast : ∀ st : State, st.env = env → (run st).reported =
      Outcome.reported ⟨result, st.extend env' lines events⟩ :=
    fun st hst => congrArg Outcome.reported (hrun st hst)
  rcases result with (e | ⟨size, id⟩ | _) | _
  · -- One line and one event go behind those of the run.
    refine ⟨.error (.error e), env', lines ++ [.reported e.text], events ++ [.failed e],
      List.forall_mem_append.2 ⟨hlines, List.forall_mem_singleton.2 (hreport e.text)⟩,
      fun st hst => ?_⟩
    rw [← State.extend_extend st env']
    exact (hlast st hst).trans
      (congrArg (Outcome.mk _) (congrArg (State.mk _ _) Array.push_eq_append))
  · exact ⟨_, env', lines, events, hlines, hlast⟩
  · exact ⟨_, env', lines, events, hlines, hlast⟩
  · exact ⟨_, env', lines, events, hlines, hlast⟩

namespace Program

/-- A program is run as its statements are, and its end is reported. -/
theorem interpret_eq_reported (p : Program) (stmts : List Stmt) (st : State) :
    p.interpret stmts st =
      (p.executeAll stmts (st.record (.started stmts.length))).reported := rfl

theorem readsEnv_interpret (p : Program) (stmts : List Stmt) :
    ReadsEnv (fun _ => True) (p.interpret stmts) := by
  have hstmts : ReadsEnv (fun _ => True) fun st =>
      p.executeAll stmts (st.record (.started stmts.length)) :=
    (readsEnv_change (State.changesBy_record _)).andThen fun _ =>
      p.readsEnv_executeAll (fun _ => trivial) stmts
  exact hstmts.reported fun _ => trivial

end Program

end ScriptCore
