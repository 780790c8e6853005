/-
No session reaches past its scopes.

An environment addresses its scopes by position, and nothing stops a client from opening and closing
scopes out of step, from leaving a block in the middle of an expression, or from putting another
environment under a scope that is still open. Closing then closes whatever scope is current. The
positions stay good through all of it, because every operation keeps the environment linked, and a
linked environment never leads outside (`Env.Linked.inRange`).

What is left is to say which states there are. A run stands in a state before and after every node
and statement (`Program.Passes`), and a client makes requests that may contain others (`Request`). A
missing expression unwinds the requests around it, up to one that catches it, and every scope on the
way is closed. The depth that the evaluator counts plays no part here: arenas may have cycles.
-/
import ScriptCore.Proofs.Attribution
import ScriptCore.Proofs.Correspondence
import ScriptCore.Session

set_option autoImplicit false

namespace ScriptCore

/-! ## Positions -/

namespace Env

/-- The loop that searches for a name from a position, or from nowhere if it has left the root. It
passes over the listed positions and comes to a result. A position that holds no scope is covered by
no rule: there the loop would break off. -/
inductive Search (env : Env) (name : Name) : Option Nat → List Nat → Option Nat → Prop where
  | exhausted : Search env name none [] none
  | found {i : Nat} {scope : Scope} : env.scope? i = some scope → scope.binds name = true →
      Search env name (some i) [i] (some i)
  | outward {i : Nat} {scope : Scope} {visited : List Nat} {result : Option Nat} :
      env.scope? i = some scope → scope.binds name = false →
      Search env name scope.parent visited result →
      Search env name (some i) (i :: visited) result

/-- Every operation on the environment finds the scopes it asks for. -/
structure InRange (env : Env) : Prop where
  /-- The current scope is the last one; this is also what closing a scope asserts. -/
  last : env.current + 1 = env.depth
  root : (env.scope? 0).map (·.parent) = some none
  parent : ∀ i, i + 1 < env.depth → (env.scope? (i + 1)).map (·.parent) = some (some i)
  /-- Closing a scope and binding a name look at the current position. -/
  current : ∃ scope, env.scope? env.current = some scope
  /-- Looking for a name ends, after at most as many rounds as there are scopes. -/
  search : ∀ name, ∃ visited, env.Search name (some env.current) visited (env.resolve? name) ∧
    visited.length ≤ env.depth
  /-- Reading and assigning a name look at the position where it was found. -/
  found : ∀ name i, env.resolve? name = some i →
    ∃ scope, env.scope? i = some scope ∧ scope.binds name = true
  /-- Closing a scope never removes the root, and at the root it does nothing. -/
  pop_root : env.pop.scope? 0 = env.scope? 0
  pop_last : env.depth = 1 → env.pop = env

namespace Linked

variable {env : Env}

theorem depth_eq (h : env.Linked) : env.depth = env.current + 1 := h.size_eq

theorem parent_scope? (h : env.Linked) {i : Nat} (hi : i < env.depth) :
    (env.scope? i).map (·.parent) = some (outer i) := by
  obtain ⟨scope, hs⟩ := scope?_lt hi
  rw [hs, Option.map_some, h.parent_eq i scope hs]

/-- The search from a position visits positions further and further out. -/
theorem exists_search (h : env.Linked) (name : Name) {i links : Nat} (hi : i < env.depth)
    (hl : i < links) :
    ∃ visited, env.Search name (some i) visited (env.resolveFrom name links i) ∧
      visited.length ≤ i + 1 := by
  -- The induction is on the position: the next one to look at is the one before it.
  induction i generalizing links with
  | zero =>
    obtain ⟨scope, hs⟩ := scope?_lt hi
    obtain ⟨links, rfl⟩ := Nat.exists_eq_add_one_of_ne_zero (Nat.ne_of_gt hl)
    have hparent : scope.parent = none := h.parent_eq 0 scope hs
    rw [resolveFrom_succ h hs]
    by_cases hb : scope.binds name = true
    · rw [if_pos hb]
      exact ⟨[0], .found hs hb, Nat.le_refl 1⟩
    · rw [if_neg hb]
      refine ⟨[0], .outward hs (Bool.eq_false_iff.2 hb) ?_, Nat.le_refl 1⟩
      rw [hparent]
      exact .exhausted
  | succ i ih =>
    obtain ⟨scope, hs⟩ := scope?_lt hi
    obtain ⟨links, rfl⟩ := Nat.exists_eq_add_one_of_ne_zero (Nat.ne_of_gt (Nat.zero_lt_of_lt hl))
    have hparent : scope.parent = some i := h.parent_eq (i + 1) scope hs
    rw [resolveFrom_succ h hs]
    by_cases hb : scope.binds name = true
    · rw [if_pos hb]
      exact ⟨[i + 1], .found hs hb, Nat.le_add_left 1 (i + 1)⟩
    · rw [if_neg hb]
      obtain ⟨visited, hsearch, hlength⟩ := @ih links (by omega) (by omega)
      refine ⟨(i + 1) :: visited, .outward hs (Bool.eq_false_iff.2 hb) ?_, ?_⟩
      · rw [hparent]
        exact hsearch
      · rw [List.length_cons]
        omega

theorem pop_of_depth_one (h : env.Linked) (hdepth : env.depth = 1) : env.pop = env := by
  have hcurrent : env.current = 0 := by
    have := h.depth_eq
    omega
  obtain ⟨scope, hs⟩ := scope?_lt (show 0 < env.depth by omega)
  have hparent : scope.parent = none := h.parent_eq 0 scope hs
  rw [Env.pop, hcurrent, hs, Option.bind_some, hparent]

theorem scope?_zero_pop (h : env.Linked) : env.pop.scope? 0 = env.scope? 0 := by
  by_cases hdepth : env.depth = 1
  · rw [h.pop_of_depth_one hdepth]
  · obtain ⟨n, hn⟩ : ∃ n, env.depth = n + 2 := ⟨env.depth - 2, by have := h.depth_pos; omega⟩
    rw [pop_eq h hn, scope?_shrink, if_pos (Nat.succ_pos n)]

/-- A linked environment never leads outside. -/
theorem inRange (h : env.Linked) : env.InRange where
  last := h.depth_eq.symm
  root := h.parent_scope? h.depth_pos
  parent i hi := h.parent_scope? hi
  current := scope?_lt (by have := h.depth_eq; omega)
  search name := by
    have hcurrent : env.current < env.depth := by
      have := h.depth_eq
      omega
    obtain ⟨visited, hsearch, hlength⟩ := h.exists_search name hcurrent hcurrent
    exact ⟨visited, hsearch, by omega⟩
  found name i hi := bindsAt_of_resolveFrom hi
  pop_root := h.scope?_zero_pop
  pop_last := h.pop_of_depth_one

end Linked

end Env

/-! ## Runs keep the environment linked -/

/-- From a linked environment the run ends in a linked one, failed or not. -/
def KeepsLinked {α : Type} (run : State → Outcome α) : Prop :=
  ∀ st : State, st.env.Linked → (run st).state.env.Linked

namespace KeepsLinked

variable {α β : Type}

theorem pure (result : Except Halt α) : KeepsLinked fun st => ⟨result, st⟩ := fun _ hst => hst

theorem andThen {run : State → Outcome α} (h : KeepsLinked run) {next : α → State → Outcome β}
    (hnext : ∀ a, KeepsLinked (next a)) : KeepsLinked fun st => (run st).andThen next := by
  intro st hst
  have hrun := h st hst
  simp only
  generalize run st = o at hrun ⊢
  obtain ⟨halt | a, mid⟩ := o
  · exact hrun
  · exact hnext a mid hrun

end KeepsLinked

namespace Program

variable (p : Program)

theorem keepsLinked_readName (name : Name) (line : Nat) : KeepsLinked (p.readName name line) := by
  intro st hst
  rw [readName]
  split
  · exact hst
  · exact hst

theorem keepsLinked_assignName (name : Name) (v : Value) (line : Nat) :
    KeepsLinked (p.assignName name v line) := by
  intro st hst
  rw [assignName]
  split
  · next env henv => exact hst.assign henv
  · exact hst

theorem keepsLinked_evalWithin (depth : Nat) (id : NodeId) :
    KeepsLinked (p.evalWithin depth id) := by
  induction depth generalizing id with
  | zero => exact .pure (.error .tooDeep)
  | succ depth ih =>
    have hsucc := funext (p.evalWithin_succ depth id)
    rw [hsucc]
    rcases p.arena.get? id with _ | ⟨form, line⟩
    · exact .pure (.error (p.missing id))
    · cases form with
      | literal literal => exact .pure (.ok (p.literalValue literal))
      | grouping inner => exact ih inner
      | unary op operand =>
        refine (ih operand).andThen fun v => ?_
        intro st hst
        rwa [State.env_applyUnary]
      | binary op left right =>
        refine (ih left).andThen fun l => (ih right).andThen fun r => ?_
        intro st hst
        rwa [State.env_applyBinary]
      | read name => exact p.keepsLinked_readName name line
      | assign name value =>
        exact (ih value).andThen fun v => p.keepsLinked_assignName name v line

theorem keepsLinked_evaluate (id : NodeId) : KeepsLinked (p.evaluate id) := by
  intro st hst
  rw [evaluate_eq_evalWithin]
  exact p.keepsLinked_evalWithin p.maxDepth id st hst

theorem keepsLinked_initialValue (init : Option NodeId) : KeepsLinked (p.initialValue init) := by
  rcases init with _ | id
  · exact .pure (.ok Value.nil)
  · exact p.keepsLinked_evaluate id

theorem keepsLinked_evaluateAll (ids : List NodeId) : KeepsLinked (p.evaluateAll ids) := by
  induction ids with
  | nil => exact .pure (.ok [])
  | cons id rest ih =>
    exact (p.keepsLinked_evaluate id).andThen fun v => ih.andThen fun values =>
      .pure (.ok (v :: values))

mutual

theorem keepsLinked_execute : (stmt : Stmt) → KeepsLinked (p.execute stmt)
  | .expression id _ => by
    intro st hst
    rw [execute]
    exact (p.keepsLinked_evaluate id).andThen (fun _ => .pure (.ok ())) st hst
  | .print id _ => by
    intro st hst
    rw [execute]
    exact (p.keepsLinked_evaluate id).andThen (fun _ _ hmid => hmid) st hst
  | .declare name init _ => by
    intro st hst
    rw [execute]
    exact (p.keepsLinked_initialValue init).andThen (fun v _ hmid => hmid.define name v) st hst
  | .block body _ => by
    -- Whatever the body leaves is linked, and one scope of it is closed.
    intro st hst
    rw [execute]
    exact (keepsLinked_executeAll body st.enterBlock hst.push).pop

theorem keepsLinked_executeAll : (stmts : List Stmt) → KeepsLinked (p.executeAll stmts)
  | [] => by
    intro st hst
    rw [executeAll]
    exact hst
  | stmt :: rest => by
    intro st hst
    rw [executeAll]
    exact (keepsLinked_execute stmt).andThen (fun _ => keepsLinked_executeAll rest) st hst

end

theorem keepsLinked_interpret (stmts : List Stmt) : KeepsLinked (p.interpret stmts) := by
  intro st hst
  rw [env_interpret]
  exact p.keepsLinked_executeAll stmts _ hst

end Program

/-! ## The states of a run -/

/-- What a program can be asked to run. -/
inductive Task where
  | evaluate (id : NodeId)
  | execute (stmt : Stmt)
  | executeAll (stmts : List Stmt)
  | interpret (stmts : List Stmt)

namespace Program

/-- The state that a task ends in. -/
def endOf (p : Program) : Task → State → State
  | .evaluate id, st => (p.evaluate id st).state
  | .execute stmt, st => (p.execute stmt st).state
  | .executeAll stmts, st => (p.executeAll stmts st).state
  | .interpret stmts, st => (p.interpret stmts st).state

/-- A task that starts in the first state comes through the second. -/
inductive Passes (p : Program) : Task → State → State → Prop where
  | start (task : Task) (st : State) : Passes p task st st
  | finish (task : Task) (st : State) : Passes p task st (p.endOf task st)
  /-- The nodes below an expression are evaluated in turn. -/
  | node {root id : NodeId} {st mid last : State} : p.Visits root st id mid →
      Passes p (.evaluate id) mid last → Passes p (.evaluate root) st last
  | value {stmt : Stmt} {root : NodeId} {st mid : State} : stmt.root? = some root →
      Passes p (.evaluate root) st mid → Passes p (.execute stmt) st mid
  | body {body : List Stmt} {line : Nat} {st mid : State} :
      Passes p (.executeAll body) st.enterBlock mid → Passes p (.execute (.block body line)) st mid
  | first {stmt : Stmt} {rest : List Stmt} {st mid : State} : Passes p (.execute stmt) st mid →
      Passes p (.executeAll (stmt :: rest)) st mid
  | later {stmt : Stmt} {rest : List Stmt} {st mid last : State} :
      p.execute stmt st = ⟨.ok (), mid⟩ → Passes p (.executeAll rest) mid last →
      Passes p (.executeAll (stmt :: rest)) st last
  | program {stmts : List Stmt} {st mid : State} :
      Passes p (.executeAll stmts) (st.record (.started stmts.length)) mid →
      Passes p (.interpret stmts) st mid

variable {p : Program}

theorem linked_endOf (task : Task) {st : State} (hst : st.env.Linked) :
    (p.endOf task st).env.Linked := by
  cases task with
  | evaluate id => exact p.keepsLinked_evaluate id st hst
  | execute stmt => exact p.keepsLinked_execute stmt st hst
  | executeAll stmts => exact p.keepsLinked_executeAll stmts st hst
  | interpret stmts => exact p.keepsLinked_interpret stmts st hst

/-- Where a node is visited, the operands before it have left a linked environment. -/
theorem Visits.linked {root id : NodeId} {st mid : State} (h : p.Visits root st id mid)
    (hst : st.env.Linked) : mid.env.Linked := by
  induction h with
  | self => exact hst
  | @operand _ _ _ _ before _ _ st mid _ _ _ hbefore _ ih =>
    have hmid := p.keepsLinked_evaluateAll before st hst
    rw [hbefore] at hmid
    exact ih hmid

theorem Passes.linked {task : Task} {st mid : State} (h : p.Passes task st mid)
    (hst : st.env.Linked) : mid.env.Linked := by
  induction h with
  | start => exact hst
  | finish task st => exact linked_endOf task hst
  | node hvisits _ ih => exact ih (hvisits.linked hst)
  | value _ _ ih => exact ih hst
  | body _ ih => exact ih hst.push
  | first _ ih => exact ih hst
  | @later stmt _ st mid _ hstmt _ ih =>
    have hmid := p.keepsLinked_execute stmt st hst
    rw [hstmt] at hmid
    exact ih hmid
  | program _ ih => exact ih hst

end Program

/-! ## The states of a session -/

/-- What a client does with a session. -/
inductive Request where
  | single (step : Step)
  /-- Requests inside a scope that is closed behind them, whichever way they end. -/
  | guarded (body : List Request)
  /-- Requests that stop what unwinds out of them. -/
  | caught (body : List Request)

/-- The step met a missing expression. -/
def Answer.unwinds : Answer → Bool
  | .ran (.error (.missing _ _)) | .evaluated (.error (.missing _ _)) => true
  | _ => false

/-- The run that a step asks for. -/
def Step.task? : Step → Option Task
  | .interpret stmts => some (.interpret stmts)
  | .execute stmt => some (.execute stmt)
  | .block stmts => some (.execute (.block stmts 0))
  | .evaluate id => some (.evaluate id)
  | _ => none

namespace Request

mutual

/-- Make a request. The second component says whether the requests around it are unwound. -/
def make : Request → Session → Session × Bool
  | .single step, s => ((s.perform step).2, (s.perform step).1.unwinds)
  | .guarded body, s =>
    let inner := makeAll body (s.perform .enter).2
    ((inner.1.perform .leave).2, inner.2)
  | .caught body, s => ((makeAll body s).1, false)

/-- Make requests in order, up to one that unwinds. -/
def makeAll : List Request → Session → Session × Bool
  | [], s => (s, false)
  | request :: rest, s =>
    match make request s with
    | (next, true) => (next, true)
    | (next, false) => makeAll rest next

end

/-- A session in which requests are made comes through the state: before a request, inside it,
after it, or while it unwinds. -/
inductive Passes : List Request → Session → State → Prop where
  | here (requests : List Request) (s : Session) : Passes requests s s.state
  | after (request : Request) (rest : List Request) (s : Session) :
      Passes (request :: rest) s (request.make s).1.state
  | running {step : Step} {task : Task} {rest : List Request} {s : Session} {st : State} :
      step.task? = some task → s.program.Passes task s.state st → Passes (.single step :: rest) s st
  | guarded {body rest : List Request} {s : Session} {st : State} :
      Passes body (s.perform .enter).2 st → Passes (.guarded body :: rest) s st
  | caught {body rest : List Request} {s : Session} {st : State} :
      Passes body s st → Passes (.caught body :: rest) s st
  | next {request : Request} {rest : List Request} {s next : Session} {st : State} :
      request.make s = (next, false) → Passes rest next st → Passes (request :: rest) s st

end Request

namespace Session

/-- **One step.** -/
theorem linked_perform {s : Session} (hs : s.state.env.Linked) (step : Step) :
    (s.perform step).2.state.env.Linked := by
  cases step with
  | push | enter => exact hs.push
  | pop | leave => exact hs.pop
  | define name value => exact hs.define name value
  | assign name value line =>
    rw [perform]
    split
    · next env henv => exact hs.assign henv
    · exact hs
  | lookup | get | scopes | scope | clear | printLine | reportLine | redirect | rebuild => exact hs
  | interpret stmts => exact s.program.keepsLinked_interpret stmts s.state hs
  | execute stmt => exact s.program.keepsLinked_execute stmt s.state hs
  | block stmts => exact s.program.keepsLinked_execute (.block stmts 0) s.state hs
  | evaluate id => exact s.program.keepsLinked_evaluate id s.state hs
  | restart sink => exact Env.linked_new

end Session

namespace Request

mutual

theorem linked_make : (request : Request) → {s : Session} → s.state.env.Linked →
    (request.make s).1.state.env.Linked
  | .single step, s, hs => by
    rw [make]
    exact Session.linked_perform hs step
  | .guarded body, s, hs => by
    rw [make]
    exact Session.linked_perform (linked_makeAll body (Session.linked_perform hs .enter)) .leave
  | .caught body, s, hs => by
    rw [make]
    exact linked_makeAll body hs

/-- **Requests.** What is unwound has closed its scopes, and the environment is still linked. -/
theorem linked_makeAll : (requests : List Request) → {s : Session} → s.state.env.Linked →
    (makeAll requests s).1.state.env.Linked
  | [], s, hs => by
    rw [makeAll]
    exact hs
  | request :: rest, s, hs => by
    have hrequest := linked_make request hs
    rw [makeAll]
    rcases hmake : request.make s with ⟨next, _ | _⟩ <;> rw [hmake] at hrequest
    · exact linked_makeAll rest hrequest
    · exact hrequest

end

theorem Passes.linked {requests : List Request} {s : Session} {st : State}
    (h : Passes requests s st) (hs : s.state.env.Linked) : st.env.Linked := by
  induction h with
  | here => exact hs
  | after request rest s => exact linked_make request hs
  | running _ hpasses => exact hpasses.linked hs
  | guarded _ ih => exact ih (Session.linked_perform hs .enter)
  | caught _ ih => exact ih hs
  | @next request _ s next _ hmake _ ih =>
    have hnext := linked_make request hs
    rw [hmake] at hnext
    exact ih hnext

end Request

namespace Session

/-- **No session reaches past its scopes.** Whatever requests a client makes, nested and interrupted
in any way, in every state on the way the scopes form a chain from the current one, which is the
last, to the root, and every operation on the environment finds the scopes it asks for. -/
theorem requests_stay_in_range (program : Program) (sink : Sink) (requests : List Request)
    (st : State) (h : Request.Passes requests (new program sink) st) : st.env.InRange :=
  (h.linked Env.linked_new).inRange

/-- Inside a scope the client goes back to the root twice over, turns to another program, opens
another scope, starts over in a new environment, and runs a block that comes to a missing
expression. -/
def unbalanced : Request :=
  .caught [.guarded [.single .pop, .single .pop, .single (.rebuild .tangled .silent),
    .guarded [.single (.restart .silent), .single (.interpret [.block [.expression ⟨3⟩ 1] 1])],
    .single .push]]

/-- The expression is there in the first program and not in the second. The block closes its scope,
and then both guards close one in an environment that is at its root by then. -/
theorem requests_stay_in_range_unbalanced :
    let s := new .brokenDifference .silent
    let last := (unbalanced.make s).1.state
    Request.Passes [unbalanced] s last ∧
      last.trace = #[.started 1, .blockEntered 2, .blockLeft 1, .blockLeft 1, .blockLeft 1] ∧
      last.env.depth = 1 ∧ last.env.InRange := by
  intro s last
  have hpasses : Request.Passes [unbalanced] s last := .after unbalanced [] s
  exact ⟨hpasses, by decide +kernel, by decide +kernel,
    requests_stay_in_range .brokenDifference .silent [unbalanced] last hpasses⟩

end Session

end ScriptCore
