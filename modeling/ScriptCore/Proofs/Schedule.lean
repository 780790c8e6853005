/-
The order of evaluation, as a list.

A run of a program does one thing after the other, and what comes next never depends on a value:
there are no branches and no loops. So the order can be written down beforehand. The schedule of a
program lists its acts, operands before their operator, left before right, the value of an
assignment before the assignment, and a block between its opening and its closing.

Performing a schedule act by act, with the values of operands on a list, is running the program
(`executeAll_eq_performAll` and its companions). The first act that fails ends the run, and the
blocks that are open then are closed. This gives a place to every failure: the number of acts that
were performed before it (`performed`).

`perform_ok` and `perform_error` say once what an act can do to the scopes and how it can fail;
every invariant of a run is derived from these two.
-/
import ScriptCore.Proofs.TreeSemantics
import ScriptCore.Run.Statement

set_option autoImplicit false

namespace ScriptCore

/-- What a node or a statement does once the values of its operands are known. A grouping does
nothing. -/
inductive Act where
  | literal (value : Literal)
  | missing (size : Nat) (id : NodeId)
  | unary (op : UnaryOp) (line : Nat)
  | binary (op : BinaryOp) (line : Nat)
  | read (name : Name) (line : Nat)
  | assign (name : Name) (line : Nat)
  | discard
  | print
  | declare (name : Name)
  | enter
  | leave
deriving DecidableEq, Repr

/-! ## Schedules -/

/-- The acts of an expression, in the order of evaluation. -/
def Tree.acts : Tree → List Act
  | literal value => [.literal value]
  | grouping inner => inner.acts
  | unary op operand line => operand.acts ++ [.unary op line]
  | binary op left right line => left.acts ++ (right.acts ++ [.binary op line])
  | read name line => [.read name line]
  | assign name value line => value.acts ++ [.assign name line]
  | missing size id => [.missing size id]

namespace StmtTree

mutual

/-- The acts of a statement. A variable without a value is declared with `nil`. -/
def acts : StmtTree → List Act
  | expression value => value.acts ++ [.discard]
  | print value => value.acts ++ [.print]
  | declare name none => [.literal .nil, .declare name]
  | declare name (some init) => init.acts ++ [.declare name]
  | block body => .enter :: (actsAll body ++ [.leave])

/-- The acts of statements, one after the other. -/
def actsAll : List StmtTree → List Act
  | [] => []
  | stmt :: rest => acts stmt ++ actsAll rest

end

end StmtTree

namespace Program

/-- The acts of an expression of the program. -/
def exprSchedule (p : Program) (id : NodeId) : List Act := (p.arena.tree id).acts

/-- The acts of a statement. -/
def stmtSchedule (p : Program) (stmt : Stmt) : List Act := (p.arena.stmtTree stmt).acts

/-- The acts of statements, one after the other. -/
def schedule (p : Program) (stmts : List Stmt) : List Act :=
  StmtTree.actsAll (p.arena.stmtTrees stmts)

/-- The acts of statements in a block of their own. -/
def blockSchedule (p : Program) (body : List Stmt) : List Act :=
  .enter :: (p.schedule body ++ [.leave])

theorem schedule_cons (p : Program) (stmt : Stmt) (rest : List Stmt) :
    p.schedule (stmt :: rest) = p.stmtSchedule stmt ++ p.schedule rest := by
  rw [schedule, Arena.stmtTrees, StmtTree.actsAll, stmtSchedule, schedule]

theorem schedule_singleton (p : Program) (stmt : Stmt) :
    p.schedule [stmt] = p.stmtSchedule stmt := by
  rw [schedule_cons]
  exact List.append_nil _

theorem stmtSchedule_block (p : Program) (body : List Stmt) (line : Nat) :
    p.stmtSchedule (.block body line) = p.blockSchedule body := by
  rw [stmtSchedule, Arena.stmtTree, StmtTree.acts]
  rfl

end Program

/-! ## Performing a schedule -/

/-- What acts leave for later acts: values not used yet, the last one first, and the number of
blocks that are open. -/
structure Pending where
  values : List Value
  blocks : Nat

namespace Pending

/-- Nothing is pending. -/
def empty : Pending := ⟨[], 0⟩

def push (w : Pending) (v : Value) : Pending := { w with values := v :: w.values }

/-- The last value; in a schedule there always is one where an act asks for it. -/
def top (w : Pending) : Value := w.values.headD .nil

def drop (w : Pending) : Pending := { w with values := w.values.tail }

@[simp] theorem top_push (w : Pending) (v : Value) : (w.push v).top = v := rfl

@[simp] theorem drop_push (w : Pending) (v : Value) : (w.push v).drop = w := rfl

@[simp] theorem blocks_push (w : Pending) (v : Value) : (w.push v).blocks = w.blocks := rfl

end Pending

/-- Close a number of scopes, innermost first. -/
def State.closeScopes : Nat → State → State
  | 0, st => st
  | n + 1, st => closeScopes n st.closeScope

/-- Close a number of scopes if the run failed. -/
def Outcome.closing {α : Type} (n : Nat) : Outcome α → Outcome α
  | ⟨.ok a, st⟩ => ⟨.ok a, st⟩
  | ⟨.error h, st⟩ => ⟨.error h, st.closeScopes n⟩

namespace Program

/-- Perform one act. -/
def perform (p : Program) : Act → Pending → State → Outcome Pending
  | .literal value, w, st => .done (w.push (p.literalValue value)) st
  | .missing size id, _, st => .fail (.missing size id) st
  | .unary op line, w, st =>
    (st.applyUnary op w.top line).andThen fun v st => .done (w.drop.push v) st
  | .binary op line, w, st =>
    (st.applyBinary op w.drop.top w.top line).andThen fun v st => .done (w.drop.drop.push v) st
  | .read name line, w, st => (p.readName name line st).andThen fun v st => .done (w.push v) st
  | .assign name line, w, st =>
    (p.assignName name w.top line st).andThen fun v st => .done (w.drop.push v) st
  | .discard, w, st => .done w.drop st
  | .print, w, st => .done w.drop (st.printLine w.top.text)
  | .declare name, w, st => .done w.drop (st.define name w.top)
  | .enter, w, st => .done { w with blocks := w.blocks + 1 } st.enterBlock
  | .leave, w, st => .done { w with blocks := w.blocks - 1 } st.closeScope

/-- Perform acts in order. The first that fails ends the run and closes the open blocks. -/
def performAll (p : Program) : List Act → Pending → State → Outcome Pending
  | [], w, st => .done w st
  | act :: rest, w, st => ((p.perform act w st).closing w.blocks).andThen (p.performAll rest)

/-- The number of acts that are performed before the run ends. -/
def performed (p : Program) : List Act → Pending → State → Nat
  | [], _, _ => 0
  | act :: rest, w, st =>
    match p.perform act w st with
    | ⟨.ok w', st'⟩ => p.performed rest w' st' + 1
    | ⟨.error _, _⟩ => 0

end Program

namespace Outcome

variable {α β : Type}

@[simp] theorem closing_done (n : Nat) (a : α) (st : State) : (done a st).closing n = done a st :=
  rfl

/-- The outcome without its value. -/
def forget (o : Outcome α) : Outcome Unit := o.andThen fun _ st => done () st

theorem state_eq_of_forget {o : Outcome α} {o' : Outcome β} (h : o.forget = o'.forget) :
    o.state = o'.state := by
  obtain ⟨_ | _, st⟩ := o <;> obtain ⟨_ | _, st'⟩ := o' <;> cases h <;> rfl

@[simp] theorem forget_unit (o : Outcome Unit) : o.forget = o := by
  obtain ⟨_ | _, st⟩ := o <;> rfl

@[simp] theorem closing_andThen (n : Nat) (o : Outcome α) (f : α → State → Outcome β) :
    (o.andThen f).closing n = (o.closing n).andThen fun a st => (f a st).closing n := by
  obtain ⟨_ | _, st⟩ := o <;> rfl

end Outcome

namespace Program

variable {p : Program}

/-- Performing the acts of an expression evaluates it and leaves its value to the acts behind. -/
theorem performAll_exprSchedule (hp : p.arena.Acyclic) (id : NodeId) (rest : List Act)
    (w : Pending) (st : State) :
    p.performAll (p.exprSchedule id ++ rest) w st =
      ((p.evaluate id st).closing w.blocks).andThen fun v st =>
        p.performAll rest (w.push v) st := by
  induction id using hp.induct generalizing rest w st with
  | missing id hget =>
    rw [exprSchedule, Arena.tree_eq hp, evaluate_eq hp, hget]
    rfl
  | node id form line hget ih =>
    rw [exprSchedule, Arena.tree_eq hp, evaluate_eq hp, hget]
    -- The hypothesis for an operand has the rest of this node's own acts behind it.
    simp only [exprSchedule] at ih
    cases form with
    | literal value => rfl
    | grouping inner => exact ih inner (by simp) rest w st
    | unary op operand =>
      simp [Node.unfold, Tree.acts, evalNode, performAll, perform, ih operand (by simp)]
    | binary op left right =>
      simp [Node.unfold, Tree.acts, evalNode, performAll, perform, ih left (by simp),
        ih right (by simp)]
    | read name => simp [Node.unfold, Tree.acts, evalNode, performAll, perform]
    | assign name value =>
      simp [Node.unfold, Tree.acts, evalNode, performAll, perform, ih value (by simp)]

mutual

/-- Performing the acts of a statement executes it. -/
theorem performAll_stmtSchedule (hp : p.arena.Acyclic) : (stmt : Stmt) → (rest : List Act) →
    (w : Pending) → (st : State) →
    p.performAll (p.stmtSchedule stmt ++ rest) w st =
      ((p.execute stmt st).closing w.blocks).andThen fun _ st => p.performAll rest w st
  | .expression id _, rest, w, st => by
    rw [execute, stmtSchedule, Arena.stmtTree, StmtTree.acts, List.append_assoc, ← exprSchedule,
      performAll_exprSchedule hp]
    simp [performAll, perform]
  | .print id _, rest, w, st => by
    rw [execute, stmtSchedule, Arena.stmtTree, StmtTree.acts, List.append_assoc, ← exprSchedule,
      performAll_exprSchedule hp]
    simp [performAll, perform]
  | .declare name none _, rest, w, st => by
    rw [execute, stmtSchedule, Arena.stmtTree, initialValue]
    rfl
  | .declare name (some id) _, rest, w, st => by
    rw [execute, stmtSchedule, Arena.stmtTree, Option.map_some, StmtTree.acts, List.append_assoc,
      ← exprSchedule, performAll_exprSchedule hp, initialValue]
    simp [performAll, perform]
  | .block body _, rest, w, st => by
    rw [execute, stmtSchedule, Arena.stmtTree, StmtTree.acts, ← schedule, List.cons_append,
      List.append_assoc, performAll, perform, Outcome.closing_done, Outcome.done_andThen,
      performAll_schedule hp body]
    -- Either way out of the body closes one scope more than the block was opened in.
    obtain ⟨halt | _, last⟩ := p.executeAll body st.enterBlock
    · rfl
    · rfl

/-- Performing the acts of statements executes them in order. -/
theorem performAll_schedule (hp : p.arena.Acyclic) : (stmts : List Stmt) → (rest : List Act) →
    (w : Pending) → (st : State) →
    p.performAll (p.schedule stmts ++ rest) w st =
      ((p.executeAll stmts st).closing w.blocks).andThen fun _ st => p.performAll rest w st
  | [], rest, w, st => by
    rw [executeAll]
    rfl
  | stmt :: stmts, rest, w, st => by
    rw [executeAll, schedule_cons, List.append_assoc, performAll_stmtSchedule hp stmt]
    simp [performAll_schedule hp stmts]

end

/-! A run from the outside is the performance of its schedule, with nothing pending. -/

theorem evaluate_eq_performAll (hp : p.arena.Acyclic) (id : NodeId) (st : State) :
    (p.evaluate id st).forget = (p.performAll (p.exprSchedule id) .empty st).forget := by
  have h := performAll_exprSchedule hp id [] .empty st
  rw [List.append_nil] at h
  rw [h]
  obtain ⟨halt | v, last⟩ := p.evaluate id st <;> rfl

theorem execute_eq_performAll (hp : p.arena.Acyclic) (stmt : Stmt) (st : State) :
    (p.execute stmt st).forget = (p.performAll (p.stmtSchedule stmt) .empty st).forget := by
  have h := performAll_stmtSchedule hp stmt [] .empty st
  rw [List.append_nil] at h
  rw [h]
  obtain ⟨halt | v, last⟩ := p.execute stmt st <;> rfl

theorem executeAll_eq_performAll (hp : p.arena.Acyclic) (stmts : List Stmt) (st : State) :
    (p.executeAll stmts st).forget = (p.performAll (p.schedule stmts) .empty st).forget := by
  have h := performAll_schedule hp stmts [] .empty st
  rw [List.append_nil] at h
  rw [h]
  obtain ⟨halt | v, last⟩ := p.executeAll stmts st <;> rfl

theorem executeBlock_eq_performAll (hp : p.arena.Acyclic) (body : List Stmt) (st : State) :
    (p.executeBlock body st).forget =
      (p.performAll (p.blockSchedule body) .empty st).forget := by
  -- The line of a block plays no part.
  rw [← execute_block p body 0, ← stmtSchedule_block p body 0]
  exact execute_eq_performAll hp _ st

end Program

/-! ## A run reads nothing but the environment

Output and trace are written and never read. -/

namespace Program

variable {p : Program} {st st' : State}

theorem perform_congr (h : st.env = st'.env) (act : Act) (w : Pending) :
    (p.perform act w st).result = (p.perform act w st').result ∧
      (p.perform act w st).state.env = (p.perform act w st').state.env := by
  -- Only the last five acts look at the environment at all.
  cases act with
  | literal | missing | discard | print => exact ⟨rfl, h⟩
  | unary op line =>
    rw [perform, perform, State.applyUnary, State.applyUnary]
    rcases op.apply w.top with fault | v <;> exact ⟨rfl, h⟩
  | binary op line =>
    rw [perform, perform, State.applyBinary, State.applyBinary]
    rcases op.apply w.drop.top w.top with fault | v <;> exact ⟨rfl, h⟩
  | read name line =>
    rw [perform, perform, readName, readName, h]
    rcases st'.env.get name line with unbound | v <;> exact ⟨rfl, h⟩
  | assign name line =>
    rw [perform, perform, assignName, assignName, h]
    rcases st'.env.assign name w.top line with unbound | env
    · exact ⟨rfl, h⟩
    · exact ⟨rfl, rfl⟩
  | declare name => exact ⟨rfl, congrArg (·.define name w.top) h⟩
  | enter => exact ⟨rfl, congrArg Env.push h⟩
  | leave => exact ⟨rfl, congrArg Env.pop h⟩

theorem performed_congr (h : st.env = st'.env) (acts : List Act) (w : Pending) :
    p.performed acts w st = p.performed acts w st' := by
  induction acts generalizing w st st' with
  | nil => rfl
  | cons act rest ih =>
    obtain ⟨hresult, henv⟩ := perform_congr (p := p) h act w
    rw [performed, performed]
    generalize p.perform act w st = o at hresult henv
    generalize p.perform act w st' = o' at hresult henv
    obtain ⟨halt | w', next⟩ := o <;> obtain ⟨halt' | w'', next'⟩ := o' <;> cases hresult
    · rfl
    · exact congrArg (· + 1) (ih henv w')

end Program

/-! ## How far a run gets -/

namespace Program

variable {p : Program}

/-- The acts that are performed when a schedule is, from nothing pending. -/
def executed (p : Program) (acts : List Act) (st : State) : List Act :=
  acts.take (p.performed acts .empty st)

theorem performed_append_of_ok {acts : List Act} {w w' : Pending} {st st' : State}
    (h : p.performAll acts w st = ⟨.ok w', st'⟩) (rest : List Act) :
    p.performed (acts ++ rest) w st = acts.length + p.performed rest w' st' := by
  induction acts generalizing w st with
  | nil =>
    cases h
    rw [List.nil_append, List.length_nil, Nat.zero_add]
  | cons act acts ih =>
    rw [performAll] at h
    rw [List.cons_append, performed]
    rcases ho : p.perform act w st with ⟨halt | mid, next⟩ <;> rw [ho] at h
    · cases h
    · -- The first act counts on both sides.
      change p.performed (acts ++ rest) mid next + 1 = _
      rw [ih h, List.length_cons]
      omega

theorem performed_append_of_error {acts : List Act} {w : Pending} {st st' : State} {halt : Halt}
    (h : p.performAll acts w st = ⟨.error halt, st'⟩) (rest : List Act) :
    p.performed (acts ++ rest) w st = p.performed acts w st ∧
      p.performed acts w st < acts.length := by
  induction acts generalizing w st with
  | nil => cases h
  | cons act acts ih =>
    rw [performAll] at h
    rw [List.cons_append, performed, performed]
    rcases ho : p.perform act w st with ⟨_ | mid, next⟩ <;> rw [ho] at h
    · exact ⟨rfl, Nat.succ_pos _⟩
    · obtain ⟨hsame, hlt⟩ := ih h
      exact ⟨congrArg (· + 1) hsame, Nat.succ_lt_succ hlt⟩

end Program

/-! ## What one act can do -/

namespace Act

/-- The number of open blocks after the act. -/
def nextLevel : Act → Nat → Nat
  | enter, n => n + 1
  | leave, n => n - 1
  | _, n => n

/-- The act leaves the scopes alone whatever they are. -/
def isInert : Act → Bool
  | literal _ | unary _ _ | binary _ _ | discard | print => true
  | _ => false

/-- An act that succeeds changes the environment in this way. -/
inductive Moves : Act → Env → Env → Prop where
  | inert {act : Act} (h : act.isInert = true) (env : Env) : Moves act env env
  | read {name : Name} {line : Nat} {env : Env} {v : Value} : env.lookup? name = some v →
      Moves (.read name line) env env
  | assign {name : Name} {line : Nat} {env env' : Env} {v : Value} :
      env.assign name v line = .ok env' → Moves (.assign name line) env env'
  | declare (name : Name) (env : Env) (v : Value) : Moves (.declare name) env (env.define name v)
  | enter (env : Env) : Moves .enter env env.push
  | leave (env : Env) : Moves .leave env env.pop

/-- An act that fails does so for one of these reasons. -/
inductive Fails (text : Name → String) : Act → Env → Halt → Prop where
  | missing (size : Nat) (id : NodeId) (env : Env) :
      Fails text (.missing size id) env (.missing size id)
  | unary {op : UnaryOp} {line : Nat} {env : Env} {v : Value} {fault : Fault} :
      op.apply v = .error fault → Fails text (.unary op line) env (fault.raisedAt line)
  | binary {op : BinaryOp} {line : Nat} {env : Env} {l r : Value} {fault : Fault} :
      op.apply l r = .error fault → Fails text (.binary op line) env (fault.raisedAt line)
  | read {name : Name} {line : Nat} {env : Env} : env.lookup? name = none →
      Fails text (.read name line) env ((Fault.undefinedVariable (text name)).raisedAt line)
  | assign {name : Name} {line : Nat} {env : Env} {v : Value} :
      env.assign name v line = .error ⟨name, line⟩ →
      Fails text (.assign name line) env ((Fault.undefinedVariable (text name)).raisedAt line)

end Act

theorem Env.eq_of_assign_error {env : Env} {name : Name} {value : Value} {line : Nat}
    {unbound : Unbound} (h : env.assign name value line = .error unbound) :
    unbound = ⟨name, line⟩ := by
  rw [Env.assign] at h
  split at h
  · cases h
  · cases h
    rfl

namespace Program

variable {p : Program}

/-- What a successful act does to the scopes. -/
theorem perform_ok {act : Act} {w w' : Pending} {st st' : State}
    (h : p.perform act w st = ⟨.ok w', st'⟩) :
    w'.blocks = act.nextLevel w.blocks ∧ act.Moves st.env st'.env := by
  cases act with
  | literal | discard | print =>
    cases h
    exact ⟨rfl, .inert rfl _⟩
  | missing => cases h
  | unary op line =>
    rw [perform, State.applyUnary] at h
    split at h <;> cases h
    exact ⟨rfl, .inert rfl _⟩
  | binary op line =>
    rw [perform, State.applyBinary] at h
    split at h <;> cases h
    exact ⟨rfl, .inert rfl _⟩
  | read name line =>
    rw [perform, readName, Env.get] at h
    rcases hv : st.env.lookup? name with _ | v <;> rw [hv] at h <;> cases h
    exact ⟨rfl, .read hv⟩
  | assign name line =>
    rw [perform, assignName] at h
    rcases ha : st.env.assign name w.top line with unbound | env <;> rw [ha] at h <;> cases h
    exact ⟨rfl, .assign ha⟩
  | declare name =>
    cases h
    exact ⟨rfl, .declare name _ _⟩
  | enter =>
    cases h
    exact ⟨rfl, .enter _⟩
  | leave =>
    cases h
    exact ⟨rfl, .leave _⟩

/-- How an act fails, and that it leaves the environment as it was. -/
theorem perform_error {act : Act} {w : Pending} {st st' : State} {halt : Halt}
    (h : p.perform act w st = ⟨.error halt, st'⟩) :
    act.Fails p.names.text st.env halt ∧ st'.env = st.env := by
  cases act with
  | literal | discard | print | declare | enter | leave => cases h
  | missing size id =>
    cases h
    exact ⟨.missing size id _, rfl⟩
  | unary op line =>
    rw [perform, State.applyUnary] at h
    rcases hop : op.apply w.top with fault | v <;> rw [hop] at h <;> cases h
    exact ⟨.unary hop, rfl⟩
  | binary op line =>
    rw [perform, State.applyBinary] at h
    rcases hop : op.apply w.drop.top w.top with fault | v <;> rw [hop] at h <;> cases h
    exact ⟨.binary hop, rfl⟩
  | read name line =>
    rw [perform, readName, Env.get] at h
    rcases hv : st.env.lookup? name with _ | v <;> rw [hv] at h <;> cases h
    exact ⟨.read hv, rfl⟩
  | assign name line =>
    rw [perform, assignName] at h
    rcases ha : st.env.assign name w.top line with unbound | env <;> rw [ha] at h <;> cases h
    obtain rfl := Env.eq_of_assign_error ha
    exact ⟨.assign ha, rfl⟩

end Program

/-! ## Levels

The acts of an expression open and close nothing, and a statement closes what it opens. So a
reading of a schedule that carries the number of open blocks along passes over whole expressions
and statements as soon as it passes over single acts. -/

/-- The act belongs to an expression. -/
def Act.inExpr : Act → Bool
  | literal _ | missing _ _ | unary _ _ | binary _ _ | read _ _ | assign _ _ => true
  | _ => false

/-- At level `n` and above, the reading passes over every act that does not lead below `n`. -/
def Act.Passes {β : Type} (f : List Act → Nat → β) (n : Nat) : Prop :=
  ∀ act rest m, n ≤ m → (act = .leave → n < m) → f (act :: rest) m = f rest (act.nextLevel m)

theorem Tree.pass_acts {β : Type} {f : List Act → β}
    (hf : ∀ act rest, act.inExpr = true → f (act :: rest) = f rest) (t : Tree) (rest : List Act) :
    f (t.acts ++ rest) = f rest := by
  induction t generalizing rest with
  | literal | read | missing => exact hf _ _ rfl
  | grouping _ ih => exact ih rest
  | unary _ _ _ ih | assign _ _ _ ih =>
    rw [acts, List.append_assoc, ih]
    exact hf _ _ rfl
  | binary _ _ _ _ ihl ihr =>
    rw [acts, List.append_assoc, List.append_assoc, ihl, ihr]
    exact hf _ _ rfl

namespace StmtTree

variable {β : Type} {f : List Act → Nat → β} {n : Nat}

theorem pass_value (hf : Act.Passes f n) (value : Tree) (rest : List Act) (m : Nat) (hm : n ≤ m) :
    f (value.acts ++ rest) m = f rest m := by
  refine Tree.pass_acts (f := (f · m)) (fun act rest hact => ?_) value rest
  cases act <;> simp only [Act.inExpr, Bool.false_eq_true] at hact <;> exact hf _ rest m hm nofun

mutual

theorem pass_acts (hf : Act.Passes f n) : (t : StmtTree) → (rest : List Act) → (m : Nat) → n ≤ m →
    f (t.acts ++ rest) m = f rest m
  | .expression value, rest, m, hm | .print value, rest, m, hm
  | .declare _ (some value), rest, m, hm => by
    rw [acts, List.append_assoc, pass_value hf value _ m hm]
    exact hf _ _ m hm nofun
  | .declare name none, rest, m, hm => by
    have hvalue := hf (.literal .nil) (.declare name :: rest) m hm nofun
    rw [acts]
    exact hvalue.trans (hf (.declare name) rest m hm nofun)
  | .block body, rest, m, hm => by
    -- One level up for the body, and down again for what comes behind the block.
    have hopen := hf .enter (actsAll body ++ ([.leave] ++ rest)) m hm nofun
    have hbody := pass_actsAll hf body ([.leave] ++ rest) (m + 1) (Nat.le_succ_of_le hm)
    have hclose := hf .leave rest (m + 1) (Nat.le_succ_of_le hm) fun _ => Nat.lt_succ_of_le hm
    rw [acts, List.cons_append, List.append_assoc]
    exact hopen.trans (hbody.trans hclose)

theorem pass_actsAll (hf : Act.Passes f n) : (ts : List StmtTree) → (rest : List Act) →
    (m : Nat) → n ≤ m → f (actsAll ts ++ rest) m = f rest m
  | [], rest, m, _ => rfl
  | t :: ts, rest, m, hm => by
    rw [actsAll, List.append_assoc, pass_acts hf t _ m hm, pass_actsAll hf ts rest m hm]

end

end StmtTree

/-! ## Blocks are balanced -/

/-- From a number of open blocks, the acts close no block that is not open and leave none open. -/
def Act.Balanced : List Act → Nat → Prop
  | [], n => n = 0
  | act :: rest, n => (act = .leave → 0 < n) ∧ Balanced rest (act.nextLevel n)

theorem Act.passes_balanced : Act.Passes Act.Balanced 0 := by
  intro act rest m _ hleave
  exact propext ⟨And.right, fun hrest => ⟨hleave, hrest⟩⟩

namespace Program

variable (p : Program)

theorem balanced_exprSchedule (id : NodeId) : Act.Balanced (p.exprSchedule id) 0 := by
  have h := StmtTree.pass_value Act.passes_balanced (p.arena.tree id) [] 0 (Nat.le_refl 0)
  rw [List.append_nil] at h
  exact h.mpr rfl

theorem balanced_schedule (stmts : List Stmt) : Act.Balanced (p.schedule stmts) 0 := by
  have h := StmtTree.pass_actsAll Act.passes_balanced (p.arena.stmtTrees stmts) [] 0
    (Nat.le_refl 0)
  rw [List.append_nil] at h
  exact h.mpr rfl

theorem balanced_stmtSchedule (stmt : Stmt) : Act.Balanced (p.stmtSchedule stmt) 0 := by
  rw [← schedule_singleton]
  exact p.balanced_schedule [stmt]

theorem balanced_blockSchedule (body : List Stmt) : Act.Balanced (p.blockSchedule body) 0 := by
  rw [← stmtSchedule_block p body 0]
  exact p.balanced_stmtSchedule _

end Program

end ScriptCore
