/-
What becomes of the lines that a program writes.

A run decides which lines it writes and never asks where they go, so the sink has no say in what
happens (`ReadsEnv`), and what the sinks make of the lines is a matter of their text alone
(`Output.writeAll_eq`).

Three sessions that differ in their sinks alone are therefore in step after every job, and
`InStep` says how: the console has what it had when the buffer was last cleared, and behind that the
text of the buffer. A job keeps them in step (`InStep.job`), and clearing the buffer sets a new mark
(`InStep.clear`).

Which lines these are is up to the rules of the language. In an arena without cycles every job has
an ending by the rules (`Job.Ends`), and the text of the buffer is that of the lines of the jobs
since it was cleared (`captured_of_writes`).
-/
import ScriptCore.Proofs.Effects
import ScriptCore.Session

set_option autoImplicit false

namespace ScriptCore

/-! ## Sessions that differ in their sinks -/

/-- A call that runs something. -/
inductive Job where
  | interpret (stmts : List Stmt)
  | execute (stmt : Stmt)
  | block (body : List Stmt)
  | evaluate (id : NodeId)

namespace Job

/-- The job as a step of a session. -/
def step : Job → Step
  | interpret stmts => .interpret stmts
  | execute stmt => .execute stmt
  | block body => .block body
  | evaluate id => .evaluate id

/-- Jobs in rounds, with the buffer cleared behind each round. -/
def cleared (rounds : List (List Job)) : List Step :=
  rounds.flatMap fun jobs => jobs.map step ++ [.clear]

theorem cleared_cons (jobs : List Job) (rest : List (List Job)) :
    cleared (jobs :: rest) = jobs.map step ++ (.clear :: cleared rest) := by
  simp [cleared]

end Job

/-! ## The lines of jobs -/

namespace Job

/-- By the rules of the language the job leads from the first scopes to the second and writes the
lines. -/
inductive Ends (p : Program) : Job → ScopeStack → ScopeStack → List Line → Prop where
  | interpret {stmts : List Stmt} {s : ScopeStack} {e : Ending Unit} :
      Interprets p.names.text (p.arena.stmtTrees stmts) s e →
      Ends p (.interpret stmts) s e.scopes e.lines
  | execute {stmt : Stmt} {s : ScopeStack} {e : Ending Unit} :
      Executes p.names.text (p.arena.stmtTree stmt) s e →
      Ends p (.execute stmt) s e.scopes e.lines
  | block {body : List Stmt} {s : ScopeStack} {e : Ending Unit} :
      Executes p.names.text (.block (p.arena.stmtTrees body)) s e →
      Ends p (.block body) s e.scopes e.lines
  | evaluate {id : NodeId} {s s' : ScopeStack} {res : Except Halt Value} :
      Evaluates p.names.text (p.arena.tree id) s res s' → Ends p (.evaluate id) s s' []

/-- Jobs, one after the other, write the lines. -/
inductive Writes (p : Program) : List Job → ScopeStack → List Line → Prop where
  | nil (s : ScopeStack) : Writes p [] s []
  | cons {job : Job} {rest : List Job} {s s' : ScopeStack} {lines lines' : List Line} :
      job.Ends p s s' lines → Writes p rest s' lines' → Writes p (job :: rest) s (lines ++ lines')

theorem Ends.unique {p : Program} {job : Job} {s s₁ s₂ : ScopeStack} {lines₁ lines₂ : List Line}
    (h₁ : job.Ends p s s₁ lines₁) (h₂ : job.Ends p s s₂ lines₂) : s₁ = s₂ ∧ lines₁ = lines₂ := by
  cases h₁ with
  | interpret h₁ =>
    cases h₂ with
    | interpret h₂ => simp [h₁.unique h₂]
  | execute h₁ =>
    cases h₂ with
    | execute h₂ => simp [Executes.unique _ h₁ h₂]
  | block h₁ =>
    cases h₂ with
    | block h₂ => simp [Executes.unique _ h₁ h₂]
  | evaluate h₁ =>
    cases h₂ with
    | evaluate h₂ => exact ⟨(h₁.unique h₂).2, rfl⟩

theorem Writes.unique {p : Program} {jobs : List Job} {s : ScopeStack} {lines₁ lines₂ : List Line}
    (h₁ : Writes p jobs s lines₁) (h₂ : Writes p jobs s lines₂) : lines₁ = lines₂ := by
  induction h₁ generalizing lines₂ with
  | nil =>
    cases h₂
    rfl
  | cons hjob _ ih =>
    cases h₂ with
    | cons hjob' hrest =>
      -- The first jobs end alike, so the others start from the same scopes.
      obtain ⟨rfl, rfl⟩ := hjob.unique hjob'
      rw [ih hrest]

end Job

namespace Session

/-- The session after some steps. -/
def performAll (s : Session) (steps : List Step) : Session :=
  steps.foldl (fun s step => (s.perform step).2) s

/-- What each step answers, and the environment it leaves. -/
def course (s : Session) : List Step → List (Answer × Env)
  | [] => []
  | step :: rest =>
    ((s.perform step).1, (s.perform step).2.state.env) :: (s.perform step).2.course rest

theorem performAll_append (s : Session) (first second : List Step) :
    s.performAll (first ++ second) = (s.performAll first).performAll second := List.foldl_append

theorem course_append (s : Session) (first second : List Step) :
    s.course (first ++ second) = s.course first ++ (s.performAll first).course second := by
  induction first generalizing s with
  | nil => rfl
  | cons step rest ih => exact congrArg _ (ih (s.perform step).2)

/-- A job answers with the result of a run that reads the environment alone, and keeps the state
that the run has ended in. -/
theorem perform_eq_after (p : Program) (job : Job) : ∃ (α : Type) (run : State → Outcome α)
    (answer : Except Halt α → Answer), ReadsEnv (fun _ => True) run ∧
      ∀ s : Session, s.program = p →
        s.perform job.step = (answer (run s.state).result, s.after (run s.state)) := by
  cases job with
  | interpret stmts =>
    refine ⟨Unit, p.interpret stmts, .ran, p.readsEnv_interpret stmts, ?_⟩
    rintro s rfl
    rfl
  | execute stmt =>
    refine ⟨Unit, p.execute stmt, .ran, p.readsEnv_execute (fun _ => trivial) stmt, ?_⟩
    rintro s rfl
    rfl
  | block body =>
    refine ⟨Unit, p.executeBlock body, .ran, p.readsEnv_executeBlock (fun _ => trivial) body, ?_⟩
    rintro s rfl
    rfl
  | evaluate id =>
    refine ⟨Value, p.evaluate id, .evaluated, p.readsEnv_evaluate id, ?_⟩
    rintro s rfl
    rfl

/-- **One job.** The program and the environment settle the answer, the next environment and the
text that is written; the sink is not asked. -/
theorem perform_job (p : Program) (env : Env) (job : Job) : ∃ answer env' text,
    ∀ s : Session, s.program = p → s.state.env = env →
      ∃ trace, s.perform job.step = (answer, ⟨p, env', s.state.output.receive text, trace⟩) := by
  obtain ⟨α, run, answer, hreads, hperform⟩ := perform_eq_after p job
  obtain ⟨result, env', lines, events, -, hrun⟩ := hreads env
  refine ⟨answer result, env', .ofLines lines, ?_⟩
  rintro s rfl hs
  refine ⟨s.state.trace ++ events.toArray, ?_⟩
  rw [hperform s rfl, hrun s.state hs, after, State.extend, Output.writeAll_eq]

/-- Three sessions in one environment. The first writes to the console, the second to a buffer and
the third nowhere; the console shows `mark` and behind it what the buffer holds. -/
structure InStep (mark : Streams) (console buffer silent : Session) : Prop where
  program : buffer.program = console.program
  program' : silent.program = console.program
  env : buffer.state.env = console.state.env
  env' : silent.state.env = console.state.env
  console_eq : console.state.output =
    ⟨.console, mark.append buffer.state.output.captured⟩
  buffer_eq : buffer.state.output = ⟨.buffer buffer.state.output.captured, .empty⟩
  silent_eq : silent.state.output = ⟨.silent, .empty⟩

namespace InStep

variable {mark : Streams} {console buffer silent : Session}

/-- The next sessions after a job, with their answers. -/
theorem job (h : InStep mark console buffer silent) (job : Job) :
    InStep mark (console.perform job.step).2 (buffer.perform job.step).2
        (silent.perform job.step).2 ∧
      (console.perform job.step).1 = (buffer.perform job.step).1 ∧
      (silent.perform job.step).1 = (buffer.perform job.step).1 := by
  obtain ⟨answer, env', text, hjob⟩ := perform_job console.program console.state.env job
  obtain ⟨trace, hconsole⟩ := hjob console rfl rfl
  obtain ⟨trace', hbuffer⟩ := hjob buffer h.program h.env
  obtain ⟨trace'', hsilent⟩ := hjob silent h.program' h.env'
  rw [hconsole, hbuffer, hsilent]
  refine ⟨⟨rfl, rfl, rfl, rfl, ?_, ?_, ?_⟩, rfl, rfl⟩
  · -- Console and buffer have received the same text.
    rw [h.console_eq, h.buffer_eq]
    exact congrArg (Output.mk .console) (Streams.append_assoc _ _ _)
  · rw [h.buffer_eq]
    rfl
  · rw [h.silent_eq]
    rfl

/-- Clearing empties the buffer and leaves the other two as they are; what the console shows by now
is the new mark. -/
theorem clear (h : InStep mark console buffer silent) :
    InStep console.state.output.console (console.perform .clear).2 (buffer.perform .clear).2
      (silent.perform .clear).2 := by
  have hconsole : console.state.output.clear = ⟨.console, console.state.output.console⟩ := by
    rw [h.console_eq]
    rfl
  have hbuffer : buffer.state.output.clear = ⟨.emptyBuffer, .empty⟩ := by
    rw [h.buffer_eq]
    rfl
  have hsilent : silent.state.output.clear = ⟨.silent, .empty⟩ := by
    rw [h.silent_eq]
    rfl
  refine ⟨h.program, h.program', h.env, h.env', ?_, ?_, ?_⟩
  · change console.state.output.clear =
      ⟨.console, Streams.append _ buffer.state.output.clear.captured⟩
    rw [hconsole, hbuffer]
    exact congrArg (Output.mk .console) (Streams.append_empty _).symm
  · change buffer.state.output.clear = ⟨.buffer buffer.state.output.clear.captured, .empty⟩
    rw [hbuffer]
    rfl
  · exact hsilent

theorem jobs (h : InStep mark console buffer silent) (jobs : List Job) :
    InStep mark (console.performAll (jobs.map Job.step)) (buffer.performAll (jobs.map Job.step))
        (silent.performAll (jobs.map Job.step)) ∧
      console.course (jobs.map Job.step) = buffer.course (jobs.map Job.step) ∧
      silent.course (jobs.map Job.step) = buffer.course (jobs.map Job.step) := by
  induction jobs generalizing console buffer silent with
  | nil => exact ⟨h, rfl, rfl⟩
  | cons job rest ih =>
    obtain ⟨hnext, hanswer, hanswer'⟩ := h.job job
    obtain ⟨hlast, hcourse, hcourse'⟩ := ih hnext
    refine ⟨hlast, ?_, ?_⟩
    · rw [List.map_cons, course, course, hanswer, hcourse, hnext.env]
    · rw [List.map_cons, course, course, hanswer', hcourse', hnext.env', hnext.env]

/-- Behind a number of rounds the buffer has just been cleared: all that the console shows is the
mark. -/
theorem rounds (h : InStep mark console buffer silent)
    (hmark : console.state.output.console = mark) (rounds : List (List Job)) :
    InStep (console.performAll (Job.cleared rounds)).state.output.console
        (console.performAll (Job.cleared rounds)) (buffer.performAll (Job.cleared rounds))
        (silent.performAll (Job.cleared rounds)) ∧
      console.course (Job.cleared rounds) = buffer.course (Job.cleared rounds) ∧
      silent.course (Job.cleared rounds) = buffer.course (Job.cleared rounds) := by
  induction rounds generalizing mark console buffer silent with
  | nil => exact ⟨by rwa [hmark.symm] at h, rfl, rfl⟩
  | cons jobs rest ih =>
    obtain ⟨hjobs, hcourse, hcourse'⟩ := h.jobs jobs
    -- Clearing makes a mark of what the console shows by then.
    obtain ⟨hlast, hrest, hrest'⟩ := ih hjobs.clear rfl
    simp only [Job.cleared_cons, performAll_append, course_append]
    refine ⟨hlast, ?_, ?_⟩
    · rw [hcourse, course, course, hrest, hjobs.clear.env]
      rfl
    · rw [hcourse', course, course, hrest', hjobs.clear.env', hjobs.clear.env]
      rfl

theorem console_captured (h : InStep mark console buffer silent) :
    console.state.output.captured = .empty := by
  rw [h.console_eq]
  rfl

theorem silent_captured (h : InStep mark console buffer silent) :
    silent.state.output.captured = .empty := by
  rw [h.silent_eq]
  rfl

end InStep

/-! ## What the buffer holds -/

/-- A session that runs the program in a linked environment and writes to a buffer, which holds the
text. -/
structure Buffers (p : Program) (held : Streams) (s : Session) : Prop where
  program : s.program = p
  linked : s.state.env.Linked
  sink : s.state.output.sink = .buffer held

namespace Buffers

variable {p : Program} {held : Streams} {s : Session}

/-- A job ends as the rules say, and the text of the lines that they say goes into the buffer. -/
theorem job (h : s.Buffers p held) (hp : p.arena.Acyclic) (job : Job) : ∃ lines,
    job.Ends p s.state.env.stack (s.perform job.step).2.state.env.stack lines ∧
      (s.perform job.step).2.Buffers p (held.append (.ofLines lines)) := by
  obtain ⟨rfl, hlinked, hsink⟩ := h
  have hnext : ∀ {o : Output} {lines : List Line}, o = s.state.output.writeAll lines →
      o.sink = .buffer (held.append (.ofLines lines)) := by
    rintro _ lines rfl
    exact Output.sink_writeAll hsink lines
  cases job with
  | interpret stmts =>
    obtain ⟨lines, hrun⟩ := Program.interpret_executed hp stmts s.state hlinked
    exact ⟨lines, .interpret hrun.rule, rfl, hrun.linked, hnext hrun.output⟩
  | execute stmt =>
    obtain ⟨lines, hrun⟩ := Program.execute_executed hp stmt s.state hlinked
    exact ⟨lines, .execute hrun.rule, rfl, hrun.linked, hnext hrun.output⟩
  | block body =>
    obtain ⟨lines, hbody⟩ := Program.executeAll_executed hp body s.state.enterBlock hlinked.push
    have hrun := hbody.closeScope hlinked
    exact ⟨lines, .block hrun.rule, rfl, hrun.linked, hnext hrun.output⟩
  | evaluate id =>
    have hrun := Program.evaluate_evaluated hp id s.state hlinked
    exact ⟨[], .evaluate hrun.rule, rfl, hrun.linked, hnext hrun.output⟩

theorem clear (h : s.Buffers p held) : (s.perform .clear).2.Buffers p .empty where
  program := h.program
  linked := h.linked
  sink := congrArg Sink.clear h.sink

theorem jobs (h : s.Buffers p held) (hp : p.arena.Acyclic) (jobs : List Job) : ∃ lines,
    Job.Writes p jobs s.state.env.stack lines ∧
      (s.performAll (jobs.map Job.step)).Buffers p (held.append (.ofLines lines)) := by
  induction jobs generalizing s held with
  | nil => exact ⟨[], .nil _, by rwa [Streams.ofLines, Streams.append_empty]⟩
  | cons job rest ih =>
    obtain ⟨lines, hends, hnext⟩ := h.job hp job
    obtain ⟨lines', hwrites, hlast⟩ := ih hnext
    refine ⟨lines ++ lines', .cons hends hwrites, ?_⟩
    rw [Streams.ofLines_append, ← Streams.append_assoc]
    exact hlast

/-- Every round ends with the buffer cleared. -/
theorem rounds (h : s.Buffers p .empty) (hp : p.arena.Acyclic) (rounds : List (List Job)) :
    (s.performAll (Job.cleared rounds)).Buffers p .empty := by
  induction rounds generalizing s with
  | nil => exact h
  | cons jobs rest ih =>
    obtain ⟨_, -, hjobs⟩ := h.jobs hp jobs
    rw [Job.cleared_cons, performAll_append]
    exact ih hjobs.clear

end Buffers

/-- A session of the program, in an environment, with nothing written yet. -/
def starting (p : Program) (env : Env) (sink : Sink) : Session := ⟨p, env, .new sink, #[]⟩

theorem inStep_starting (p : Program) (env : Env) :
    InStep .empty (starting p env .console) (starting p env .emptyBuffer)
      (starting p env .silent) :=
  ⟨rfl, rfl, rfl, rfl, rfl, rfl, rfl⟩

/-- **The sink has no say.** Whatever is run, with the buffer cleared in between or not, the
answers and the environments after each step are the same with each of the three sinks. The console
shows what it showed when the buffer was last cleared, and behind it what the buffer holds; if the
buffer is never cleared the two have the same text. There is nothing to be read back from the
console or from silence. And where the rules have an ending for every job, the buffer holds the text
of the lines that the jobs since the last clearing write by the rules, and these alone. -/
theorem sinks_agree (p : Program) (env : Env) (rounds : List (List Job)) (jobs : List Job) :
    let before := Job.cleared rounds
    let steps := before ++ jobs.map Job.step
    let console := starting p env .console
    let buffer := starting p env .emptyBuffer
    let silent := starting p env .silent
    console.course steps = buffer.course steps ∧ silent.course steps = buffer.course steps ∧
      (console.performAll steps).state.output.console =
        (console.performAll before).state.output.console.append
          (buffer.performAll steps).state.output.captured ∧
      (console.performAll (jobs.map Job.step)).state.output.console =
        (buffer.performAll (jobs.map Job.step)).state.output.captured ∧
      (console.performAll steps).state.output.captured = .empty ∧
      (silent.performAll steps).state.output.captured = .empty ∧
      (p.arena.Acyclic → env.Reachable → ∃ lines,
        Job.Writes p jobs (buffer.performAll before).state.env.stack lines ∧
          (∀ lines', Job.Writes p jobs (buffer.performAll before).state.env.stack lines' →
            lines' = lines) ∧
          (buffer.performAll steps).state.output.captured = .ofLines lines) := by
  intro before steps console buffer silent
  have hstart := inStep_starting p env
  obtain ⟨hbefore, hcourse, hcourse'⟩ := hstart.rounds rfl rounds
  obtain ⟨hlast, hjobs, hjobs'⟩ := hbefore.jobs jobs
  obtain ⟨honly, -, -⟩ := hstart.jobs jobs
  simp only [steps, performAll_append, course_append]
  refine ⟨?_, ?_, ?_, ?_, hlast.console_captured, hlast.silent_captured, ?_⟩
  · rw [hcourse, hjobs]
  · rw [hcourse', hjobs']
  · exact congrArg Output.console hlast.console_eq
  · -- Nothing was there before the first job.
    rw [honly.console_eq, Streams.empty_append]
  · intro hp hreach
    have hbuffer : buffer.Buffers p .empty := ⟨rfl, hreach.linked, rfl⟩
    obtain ⟨lines, hwrites, hheld⟩ := (hbuffer.rounds hp rounds).jobs hp jobs
    refine ⟨lines, hwrites, fun lines' hwrites' => hwrites'.unique hwrites, ?_⟩
    rw [Output.captured, hheld.sink, Sink.captured, Streams.empty_append]

/-- Jobs that print and report in turns: `true`, then the unbound `x`, twice. -/
def mixed : List Job :=
  [.interpret [.print ⟨4⟩ 1, .print ⟨1⟩ 2], .execute (.print ⟨4⟩ 3), .interpret [.expression ⟨1⟩ 4]]

/-- The lines of these jobs wherever `x` is unbound. -/
theorem writes_mixed {s : ScopeStack} (hs : s.lookup? ⟨1⟩ = none) :
    Job.Writes .tangled mixed s
      [.printed "true", .reported "Undefined variable 'x'. [line 2]", .printed "true",
        .reported "Undefined variable 'x'. [line 2]"] := by
  have hprint : ∀ line, Executes Program.tangled.names.text
      (Program.tangled.arena.stmtTree (.print ⟨4⟩ line)) s ⟨.ok (), s, [.printed "true"]⟩ :=
    fun _ => .print (.literal (.boolean true) s) .yes
  have hunbound : Evaluates Program.tangled.names.text (Program.tangled.arena.tree ⟨1⟩) s
      (.error ((Fault.undefinedVariable "x").endsAt 2)) s := .readUnbound hs
  have hfirst : Interprets Program.tangled.names.text
      (Program.tangled.arena.stmtTrees [.print ⟨4⟩ 1, .print ⟨1⟩ 2]) s
      ⟨.error ((Fault.undefinedVariable "x").endsAt 2), s,
        [.printed "true", .reported "Undefined variable 'x'. [line 2]"]⟩ :=
    .error (.cons (hprint 1) (.halt (.printHalt hunbound)))
  have hlast : Interprets Program.tangled.names.text
      (Program.tangled.arena.stmtTrees [.expression ⟨1⟩ 4]) s
      ⟨.error ((Fault.undefinedVariable "x").endsAt 2), s,
        [.reported "Undefined variable 'x'. [line 2]"]⟩ :=
    .error (.halt (.expressionHalt hunbound))
  exact .cons (.interpret hfirst) (.cons (.execute (hprint 3)) (.cons (.interpret hlast) (.nil s)))

/-- Printed and reported lines before the buffer is cleared and behind it. -/
theorem sinks_agree_mixed :
    let before := Job.cleared [mixed]
    let steps := before ++ mixed.map Job.step
    let console := starting .tangled .new .console
    let buffer := starting .tangled .new .emptyBuffer
    let reported := "Undefined variable 'x'. [line 2]\nUndefined variable 'x'. [line 2]\n"
    Program.tangled.arena.Acyclic ∧ Env.new.Reachable ∧
      console.course steps = buffer.course steps ∧
      (buffer.performAll steps).state.output.captured = ⟨"true\ntrue\n", reported⟩ ∧
      (console.performAll steps).state.output.console =
        ⟨"true\ntrue\ntrue\ntrue\n", reported ++ reported⟩ := by
  intro before steps console buffer reported
  obtain ⟨hcourse, -, hconsole, -, -, -, hlines⟩ := sinks_agree .tangled .new [mixed] mixed
  obtain ⟨lines, -, hunique, hcaptured⟩ := hlines Arena.acyclic_tangled Env.reachable_new
  have hunbound : (buffer.performAll before).state.env.stack.lookup? ⟨1⟩ = none := by
    decide +kernel
  have hbefore : (console.performAll before).state.output.console =
      ⟨"true\ntrue\n", reported⟩ := by
    decide +kernel
  rw [← hunique _ (writes_mixed hunbound)] at hcaptured
  refine ⟨Arena.acyclic_tangled, Env.reachable_new, hcourse, hcaptured, ?_⟩
  rw [hconsole, hbefore, hcaptured]
  rfl

end Session

end ScriptCore
