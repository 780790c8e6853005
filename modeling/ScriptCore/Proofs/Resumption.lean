/-
Programs in two parts.

What one statement leaves to the next is the environment, and what has been written is behind it. So
a program may be cut anywhere and its second part run later, as long as the first part succeeds: the
second run starts from the environment that the first has left (`interpret_append`). It may even
write to another buffer, since nothing that was written is looked at again; the two buffers, one
behind the other, then hold what one would have held (`ReadsEnv.resumes`).
-/
import ScriptCore.Proofs.Leaves
import ScriptCore.Proofs.Sinks

set_option autoImplicit false

namespace ScriptCore

namespace Outcome

variable {α β : Type} {o : Outcome α}

theorem andThen_of_ok {a : α} (h : o.result = .ok a) (next : α → State → Outcome β) :
    o.andThen next = next a o.state := by
  obtain ⟨result, st⟩ := o
  cases h
  rfl

theorem andThen_of_error {halt : Halt} (h : o.result = .error halt) (next : α → State → Outcome α) :
    o.andThen next = o := by
  obtain ⟨result, st⟩ := o
  cases h
  rfl

end Outcome

/-- From the same environment, with an empty buffer in the place of another, a run does the same,
and the empty buffer takes what the other takes. -/
theorem ReadsEnv.resumes {α : Type} {allowed : Line → Prop} {run : State → Outcome α}
    (h : ReadsEnv allowed run) {st st' : State} {captured : Streams} (henv : st'.env = st.env)
    (hsink : st.output.sink = .buffer captured) (hempty : st'.output.sink = .emptyBuffer) :
    (run st').result = (run st).result ∧ (run st').state.env = (run st).state.env ∧
      (run st).state.output.sink = .buffer (captured.append (run st').state.output.captured) := by
  obtain ⟨result, env', lines, events, -, hrun⟩ := h st.env
  rw [hrun st rfl, hrun st' henv]
  refine ⟨rfl, rfl, ?_⟩
  have htext : (st'.output.writeAll lines).captured = .ofLines lines := by
    rw [Output.captured, Output.sink_writeAll hempty, Streams.empty_append]
    rfl
  exact (Output.sink_writeAll hsink lines).trans (by rw [State.extend, htext])

namespace Program

variable (p : Program)

/-- How many statements the trace says there are makes no difference to a run of some of them. -/
theorem exists_executeAll_started (stmts : List Stmt) (st : State) : ∃ result env' lines events,
    ∀ count, p.executeAll stmts (st.record (.started count)) =
      ⟨result, st.extend env' lines (.started count :: events)⟩ := by
  have hreads : ReadsEnv (fun _ => True) (p.executeAll stmts) :=
    p.readsEnv_executeAll (fun _ => trivial) stmts
  obtain ⟨result, env', lines, events, -, hrun⟩ := hreads st.env
  refine ⟨result, env', lines, events, fun count => ?_⟩
  have hrecord : st.record (.started count) = st.extend st.env [] [.started count] :=
    congrArg (State.mk _ _) Array.push_eq_append
  have henv : (st.record (.started count)).env = st.env := rfl
  rw [hrun _ henv, hrecord, State.extend_extend]
  rfl

/-- The first part succeeds: the whole goes on as the second part does from there. -/
theorem interpret_append_of_ok {xs : List Stmt} {st : State}
    (h : (p.interpret xs st).result = .ok ()) (ys : List Stmt) :
    (p.interpret (xs ++ ys) st).Alike (p.interpret ys (p.interpret xs st).state) := by
  obtain ⟨result, env', lines, events, hrun⟩ := p.exists_executeAll_started xs st
  rw [result_interpret, hrun] at h
  cases h
  have hfirst : p.interpret xs st = ⟨.ok (), st.extend env' lines (.started xs.length :: events)⟩ :=
    congrArg Outcome.reported (hrun xs.length)
  have hwhole : p.interpret (xs ++ ys) st = (p.executeAll ys
      (st.extend env' lines (.started (xs ++ ys).length :: events))).reported := by
    rw [interpret_eq_reported, executeAll_append, hrun]
    rfl
  -- The statements of the second part start from states that differ in the trace alone.
  have hreads : ReadsEnv (fun _ => True) (p.executeAll ys) :=
    p.readsEnv_executeAll (fun _ => trivial) ys
  rw [hfirst, hwhole, interpret_eq_reported]
  refine Outcome.Alike.reported ?_
  exact hreads.alike rfl rfl

/-- The first part fails: so does the whole, and nothing tells the two runs apart but the count of
statements that the trace begins with. -/
theorem interpret_append_of_error {xs : List Stmt} {st : State} {halt : Halt}
    (h : (p.interpret xs st).result = .error halt) (ys : List Stmt) :
    (p.interpret (xs ++ ys) st).Alike (p.interpret xs st) ∧ ∃ events : List Event,
      (p.interpret xs st).state.trace =
        st.trace ++ (.started xs.length :: events).toArray ∧
      (p.interpret (xs ++ ys) st).state.trace =
        st.trace ++ (.started (xs ++ ys).length :: events).toArray := by
  obtain ⟨result, env', lines, events, hrun⟩ := p.exists_executeAll_started xs st
  rw [result_interpret, hrun] at h
  cases h
  have hfirst : p.interpret xs st =
      Outcome.reported ⟨.error halt, st.extend env' lines (.started xs.length :: events)⟩ :=
    congrArg Outcome.reported (hrun xs.length)
  have hwhole : p.interpret (xs ++ ys) st = Outcome.reported
      ⟨.error halt, st.extend env' lines (.started (xs ++ ys).length :: events)⟩ := by
    rw [interpret_eq_reported, executeAll_append, hrun]
    rfl
  have htrace : ∀ count, (Outcome.reported
      ⟨.error halt, st.extend env' lines (.started count :: events)⟩).state.trace =
        st.trace ++ (.started count :: (events ++ Outcome.failures ⟨.error halt, st⟩)).toArray := by
    intro count
    rw [Outcome.trace_reported, State.extend, Array.append_assoc,
      List.append_toArray (.started count :: events)]
    rfl
  rw [hfirst, hwhole, htrace, htrace]
  exact ⟨Outcome.Alike.reported ⟨rfl, rfl, rfl⟩, _, rfl, rfl⟩

theorem interpret_append (xs ys : List Stmt) (st : State) : (p.interpret (xs ++ ys) st).Alike
    ((p.interpret xs st).andThen fun _ mid => p.interpret ys mid) := by
  rcases hfirst : (p.interpret xs st).result with halt | _
  · have hwhole := (p.interpret_append_of_error hfirst ys).1
    rwa [Outcome.andThen_of_error hfirst]
  · rw [Outcome.andThen_of_ok hfirst]
    exact p.interpret_append_of_ok hfirst ys

/-- Three expressions: `true`, the variable `x`, and `-x`. -/
def negating : Program where
  names := tangled.names
  arena := ⟨#[⟨.literal (.boolean true), 1⟩, ⟨.read ⟨1⟩, 2⟩, ⟨.unary .neg ⟨1⟩, 3⟩]⟩

end Program

namespace Session

/-- The session rebuilt around its environment, with an empty buffer. -/
def rebuilt (s : Session) : Session := (s.perform (.redirect .emptyBuffer)).2

/-- **Where a program is cut makes no difference.** Running it as a whole is running its first part
and, if and only if that succeeds, its second. If the first part fails, the whole does as the first
part alone. And if the session is rebuilt between the two parts, around the same environment and
with an empty buffer, the results and environments are still those of the whole, and the text of the
one buffer is the text of the first followed by that of the second. -/
theorem parts_make_whole (s : Session) (captured : Streams)
    (hsink : s.state.output.sink = .buffer captured) (xs ys : List Stmt) :
    let whole := s.program.interpret (xs ++ ys) s.state
    let first := s.program.interpret xs s.state
    whole.Alike (first.andThen fun _ mid => s.program.interpret ys mid) ∧
      (∀ halt, first.result = .error halt → whole.Alike first ∧ ∃ events : List Event,
        first.state.trace = s.state.trace ++ (.started xs.length :: events).toArray ∧
        whole.state.trace = s.state.trace ++ (.started (xs ++ ys).length :: events).toArray) ∧
      (first.result = .ok () →
        let second := s.program.interpret ys (s.after first).rebuilt.state
        second.result = whole.result ∧ second.state.env = whole.state.env ∧
          whole.state.output.captured =
            first.state.output.captured.append second.state.output.captured) := by
  intro whole first
  refine ⟨s.program.interpret_append xs ys s.state, ?_, ?_⟩
  · intro halt hhalt
    exact s.program.interpret_append_of_error hhalt ys
  · intro hok second
    have hwhole := s.program.interpret_append_of_ok hok ys
    obtain ⟨result, env', lines, events, -, hrun⟩ := s.program.readsEnv_interpret xs s.state.env
    have hfirst : first.state.output.sink = .buffer (captured.append (.ofLines lines)) := by
      simp only [first, hrun s.state rfl]
      exact Output.sink_writeAll hsink lines
    -- Rebuilding has left the environment and put an empty buffer in the place of the first.
    have hkept : (s.after first).rebuilt.state.env = first.state.env := rfl
    have hempty : (s.after first).rebuilt.state.output.sink = .emptyBuffer := rfl
    obtain ⟨hresult, henv, hbuffer⟩ :=
      (s.program.readsEnv_interpret ys).resumes hkept hfirst hempty
    refine ⟨hresult.trans hwhole.result.symm, henv.trans hwhole.env.symm, ?_⟩
    have hcaptured : first.state.output.captured = captured.append (.ofLines lines) :=
      congrArg Sink.captured hfirst
    rw [hcaptured, Output.captured, hwhole.output, hbuffer]
    rfl

/-- The first part declares `x` and prints it. The second prints it again, in a block, and fails to
negate it. -/
theorem parts_make_whole_negating :
    let s : Session := ⟨.negating, Program.resumed⟩
    let xs := [.declare ⟨1⟩ (some ⟨0⟩) 1, .print ⟨1⟩ 1]
    let ys := [.block [.print ⟨1⟩ 2, .expression ⟨2⟩ 3] 2, .print ⟨0⟩ 4]
    let first := s.program.interpret xs s.state
    let second := s.program.interpret ys (s.after first).rebuilt.state
    s.state.output.sink = .buffer ⟨"first\n", "old\n"⟩ ∧ first.result = .ok () ∧
      first.state.output.captured = ⟨"first\ntrue\n", "old\n"⟩ ∧
      second.state.output.captured = ⟨"true\n", "Operand must be a number [line 3]\n"⟩ ∧
      (s.program.interpret (xs ++ ys) s.state).state.output.captured =
        first.state.output.captured.append second.state.output.captured := by
  intro s xs ys first second
  have hsink : s.state.output.sink = .buffer ⟨"first\n", "old\n"⟩ := rfl
  have hok : first.result = .ok () := by decide +kernel
  obtain ⟨-, -, hrebuilt⟩ := parts_make_whole s ⟨"first\n", "old\n"⟩ hsink xs ys
  exact ⟨hsink, hok, by decide +kernel, by decide +kernel, (hrebuilt hok).2.2⟩

end Session

end ScriptCore
