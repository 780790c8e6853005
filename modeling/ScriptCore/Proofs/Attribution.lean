/-
Which node an error is attributed to.

Operators make faults without a line and the evaluator adds one on the way out. That the line is
the right one has two sides. The node it belongs to can be named: it lies below the expression that
failed, it is the one that failed itself, its operands having values, its form is one that raises
such a fault, and the line is its own (`RaisedBy`). The message is that of the fault: it is made
where the fault is raised, and nothing replaces it on the way out. And no other line has a say: with
all other nodes and all statements on other lines, the program does the very same thing (`Relined`,
`Stmt.unlined`).

Both are carried through an expression together (`Attributed`): an operand that succeeds does so
whatever the lines are, and the first that fails passes its error on. Statements add nothing to
this, since their lines are never read; `FailsAt` finds the one that failed.
-/
import ScriptCore.Proofs.Leaves

set_option autoImplicit false

namespace ScriptCore

/-! ## Forms and faults -/

/-- An expression of this form can raise this fault itself. -/
inductive Form.Raises (text : Name → String) : Form → Fault → Prop where
  | neg (operand : NodeId) : Raises text (.unary .neg operand) (.typeMismatch .number)
  | numeric {op : BinaryOp} (left right : NodeId) :
      op ∈ [.sub, .mul, .div, .lt, .ltEq, .gt, .gtEq] →
      Raises text (.binary op left right) (.typeMismatch .numbers)
  | add (left right : NodeId) :
      Raises text (.binary .add left right) (.typeMismatch .numbersOrStrings)
  | div (left right : NodeId) : Raises text (.binary .div left right) .divisionByZero
  | read (name : Name) : Raises text (.read name) (.undefinedVariable (text name))
  | assign (name : Name) (value : NodeId) :
      Raises text (.assign name value) (.undefinedVariable (text name))

theorem UnaryOp.raises_of_apply {op : UnaryOp} {v : Value} {fault : Fault}
    (h : op.apply v = .error fault) (text : Name → String) (operand : NodeId) :
    (Form.unary op operand).Raises text fault := by
  have hrule := (unaryRule_iff op v (.error fault)).2 h
  cases hrule
  exact .neg operand

theorem BinaryOp.raises_of_apply {op : BinaryOp} {l r : Value} {fault : Fault}
    (h : op.apply l r = .error fault) (text : Name → String) (left right : NodeId) :
    (Form.binary op left right).Raises text fault := by
  have hrule := (binaryRule_iff op l r (.error fault)).2 h
  cases hrule with
  | addOther => exact .add left right
  | zeroDivisor => exact .div left right
  | numericOther hop => exact .numeric left right hop

/-! ## Lines that change -/

namespace Program

/-- The programs have the same names and the same forms at the same positions. -/
structure SameForms (p p' : Program) : Prop where
  names : p'.names = p.names
  forms : p'.arena.nodes.map Node.form = p.arena.nodes.map Node.form

/-- The programs differ in the lines of nodes other than the given one. -/
structure Relined (p : Program) (raiser : NodeId) (p' : Program) : Prop extends
    SameForms p p' where
  kept : p'.arena.get? raiser = p.arena.get? raiser

namespace SameForms

variable {p p' : Program}

theorem refl (p : Program) : p.SameForms p := ⟨rfl, rfl⟩

theorem form_eq (h : p.SameForms p') (id : NodeId) :
    (p'.arena.get? id).map Node.form = (p.arena.get? id).map Node.form := by
  have hform := congrArg (·[id.index]?) h.forms
  simp only [Array.getElem?_map] at hform
  exact hform

/-- A node keeps its form. -/
theorem get?_eq (h : p.SameForms p') {id : NodeId} {form : Form} {line : Nat}
    (hget : p.arena.get? id = some ⟨form, line⟩) :
    ∃ line', p'.arena.get? id = some ⟨form, line'⟩ := by
  have hform := h.form_eq id
  rw [hget, Option.map_some, Option.map_eq_some_iff] at hform
  obtain ⟨⟨form', line'⟩, hget', rfl⟩ := hform
  exact ⟨line', hget'⟩

theorem operand_eq (h : p.SameForms p') : p'.arena.Operand = p.arena.Operand := by
  funext child parent
  have hform := h.form_eq parent
  unfold Arena.Operand
  generalize p.arena.get? parent = found at hform ⊢
  generalize p'.arena.get? parent = found' at hform ⊢
  rcases found with _ | node <;> rcases found' with _ | node'
  · rfl
  · cases hform
  · cases hform
  · have hsame : node'.form = node.form := Option.some.inj hform
    simp only [Option.some.injEq, exists_eq_left', hsame]

theorem acyclic (h : p.SameForms p') (hp : p.arena.Acyclic) : p'.arena.Acyclic := by
  unfold Arena.Acyclic
  rw [h.operand_eq]
  exact hp

end SameForms

/-! ## The node that raises an error -/

/-- The values of expressions, one after the other. -/
def evaluateAll (p : Program) : List NodeId → State → Outcome (List Value)
  | [], st => .done [] st
  | id :: rest, st =>
    (p.evaluate id st).andThen fun v st =>
      (p.evaluateAll rest st).andThen fun values st => .done (v :: values) st

theorem evaluateAll_one {p : Program} {id : NodeId} {st mid : State} {v : Value}
    (h : p.evaluate id st = ⟨.ok v, mid⟩) : p.evaluateAll [id] st = ⟨.ok [v], mid⟩ := by
  rw [evaluateAll, h]
  rfl

theorem evaluateAll_two {p : Program} {left right : NodeId} {st mid last : State} {l r : Value}
    (hleft : p.evaluate left st = ⟨.ok l, mid⟩) (hright : p.evaluate right mid = ⟨.ok r, last⟩) :
    p.evaluateAll [left, right] st = ⟨.ok [l, r], last⟩ := by
  rw [evaluateAll, hleft, Outcome.andThen, evaluateAll_one hright]
  rfl

/-- On the way to the value of `root` from a state, `id` is evaluated from another state: the
operands before it have their values by then. -/
inductive Visits (p : Program) : NodeId → State → NodeId → State → Prop where
  | self (id : NodeId) (st : State) : Visits p id st id st
  | operand {root child id : NodeId} {node : Node} {before after : List NodeId}
      {values : List Value} {st mid last : State} :
      p.arena.get? root = some node → node.form.children = before ++ child :: after →
      p.evaluateAll before st = ⟨.ok values, mid⟩ → Visits p child mid id last →
      Visits p root st id last

/-- The error comes from a node below the root, of a form that raises such a fault, and has the
message of the fault and the line of that node. It is the node itself that fails: when it is
evaluated, its operands have values. -/
structure RaisedBy (p : Program) (root : NodeId) (st : State) (raiser : NodeId) (node : Node)
    (e : EvalError) : Prop where
  below : Relation.ReflTransGen p.arena.Operand raiser root
  held : p.arena.get? raiser = some node
  raises : node.form.Raises p.names.text e.fault
  message : e.message = e.fault.message
  line : e.line = some node.line
  itself : ∃ mid values last, p.Visits root st raiser mid ∧
    p.evaluateAll node.form.children mid = ⟨.ok values, last⟩ ∧
    (p.evaluate raiser mid).result = .error (.error e)

/-- What an operand raises is raised below the node. -/
theorem RaisedBy.of_operand {p : Program} {root child raiser : NodeId} {node found : Node}
    {before after : List NodeId} {values : List Value} {st mid : State} {e : EvalError}
    (h : p.RaisedBy child mid raiser found e) (hget : p.arena.get? root = some node)
    (hchildren : node.form.children = before ++ child :: after)
    (hbefore : p.evaluateAll before st = ⟨.ok values, mid⟩) :
    p.RaisedBy root st raiser found e := by
  have hmem : child ∈ node.form.children := by
    rw [hchildren]
    exact List.mem_append_right _ List.mem_cons_self
  have hchild : p.arena.Operand child root := ⟨node, hget, hmem⟩
  obtain ⟨start, found', last, hvisits, hoperands, hfails⟩ := h.itself
  exact ⟨h.below.tail hchild, h.held, h.raises, h.message, h.line, start, found', last,
    .operand hget hchildren hbefore hvisits, hoperands, hfails⟩

/-! ## Attribution in an expression -/

/-- A run in which a success depends on no line, and an error on the line of the node that it comes
from alone. -/
structure Attributed (p : Program) (Origin : State → NodeId → Node → EvalError → Prop)
    (run : Program → State → Outcome Value) : Prop where
  ok : ∀ {st last v}, run p st = ⟨.ok v, last⟩ → ∀ p', p.SameForms p' → run p' st = ⟨.ok v, last⟩
  error : ∀ {st last e}, run p st = ⟨.error (.error e), last⟩ → ∃ raiser node,
    Origin st raiser node e ∧
      ∀ p', p.Relined raiser p' → run p' st = ⟨.error (.error e), last⟩

/-- The origin of an error that arises behind a first run, as seen from before that run. -/
def Behind (run : State → Outcome Value) (Origin : State → NodeId → Node → EvalError → Prop)
    (v : Value) (mid : State) (raiser : NodeId) (node : Node) (e : EvalError) : Prop :=
  ∀ st, run st = ⟨.ok v, mid⟩ → Origin st raiser node e

namespace Attributed

variable {p : Program} {Origin Origin' : State → NodeId → Node → EvalError → Prop}
  {run run' : Program → State → Outcome Value}

/-- Only programs with the same forms are compared. -/
theorem congr (h : p.Attributed Origin run)
    (heq : ∀ p', p.SameForms p' → ∀ st, run' p' st = run p' st) : p.Attributed Origin run' where
  ok hok p' hp' := by
    rw [heq p (.refl p)] at hok
    rw [heq p' hp']
    exact h.ok hok p' hp'
  error herror := by
    rw [heq p (.refl p)] at herror
    obtain ⟨raiser, node, horigin, hlines⟩ := h.error herror
    refine ⟨raiser, node, horigin, fun p' hp' => ?_⟩
    rw [heq p' hp'.toSameForms]
    exact hlines p' hp'

theorem mono (h : p.Attributed Origin run)
    (himp : ∀ st raiser node e, Origin st raiser node e → Origin' st raiser node e) :
    p.Attributed Origin' run where
  ok := h.ok
  error herror := by
    obtain ⟨raiser, node, horigin, hlines⟩ := h.error herror
    exact ⟨raiser, node, himp _ _ _ _ horigin, hlines⟩

/-- One run after another. The second starts where the first has left the state. -/
theorem andThen (h : p.Attributed Origin run) {next : Value → Program → State → Outcome Value}
    (hnext : ∀ v, p.Attributed (Behind (run p) Origin v) (next v)) :
    p.Attributed Origin fun p st => (run p st).andThen fun v st => next v p st where
  ok {st last v} hok p' hp' := by
    rcases hrun : run p st with ⟨halt | a, mid⟩ <;> rw [hrun] at hok
    · cases hok
    · rw [h.ok hrun p' hp']
      exact (hnext a).ok hok p' hp'
  error {st last e} herror := by
    rcases hrun : run p st with ⟨halt | a, mid⟩ <;> rw [hrun] at herror
    · cases herror
      obtain ⟨raiser, node, horigin, hlines⟩ := h.error hrun
      refine ⟨raiser, node, horigin, fun p' hp' => ?_⟩
      rw [hlines p' hp']
      rfl
    · -- The first run succeeds on any lines, so what is left is the second.
      obtain ⟨raiser, node, horigin, hlines⟩ := (hnext a).error herror
      refine ⟨raiser, node, horigin st hrun, fun p' hp' => ?_⟩
      rw [h.ok hrun p' hp'.toSameForms]
      exact hlines p' hp'

end Attributed

/-- The line of a node; a position the arena does not hold has none. -/
def lineOf (p : Program) (id : NodeId) : Nat := ((p.arena.get? id).map Node.line).getD 0

theorem lineOf_eq {p : Program} {id : NodeId} {node : Node} (h : p.arena.get? id = some node) :
    p.lineOf id = node.line := by
  rw [lineOf, h]
  rfl

/-- The error comes from the node's own act, done with its own line. -/
structure Own (p : Program) (id : NodeId) (node : Node) (f : Nat → State → Outcome Value)
    (st : State) (raiser : NodeId) (found : Node) (e : EvalError) : Prop where
  raiser_eq : raiser = id
  found_eq : found = node
  raises : node.form.Raises p.names.text e.fault
  message : e.message = e.fault.message
  line : e.line = some node.line
  result : (f node.line st).result = .error (.error e)

/-- What a node does itself: it succeeds whatever its line is, or fails with a fault of its form
and its line. -/
theorem Attributed.of_own {p : Program} {id : NodeId} {node : Node}
    (hget : p.arena.get? id = some node) {f : Nat → State → Outcome Value}
    (hf : ∀ st, (∃ v last, ∀ line, f line st = ⟨.ok v, last⟩) ∨
      ∃ fault, node.form.Raises p.names.text fault ∧
        ∀ line, (f line st).result = .error (fault.raisedAt line)) :
    p.Attributed (p.Own id node f) fun p' => f (p'.lineOf id) where
  ok {st last v} h p' _ := by
    obtain ⟨found, last', hok⟩ | ⟨fault, -, hfault⟩ := hf st
    · rwa [hok] at h ⊢
    · have hresult := hfault (p.lineOf id)
      rw [h] at hresult
      cases hresult
  error {st last e} h := by
    obtain ⟨found, last', hok⟩ | ⟨fault, hraises, hfault⟩ := hf st
    · rw [hok] at h
      cases h
    · have hresult := hfault (p.lineOf id)
      have hline := lineOf_eq hget
      rw [h] at hresult
      cases hresult
      refine ⟨id, node, ⟨rfl, rfl, hraises, rfl, ?_, ?_⟩, fun p' hp' => ?_⟩
      · rw [hline]
        rfl
      · rw [← hline, h]
      · -- The one line that is read is that of a node that was kept.
        have hsame : p'.lineOf id = p.lineOf id := by rw [lineOf, hp'.kept, lineOf]
        rwa [hsame]

/-- An own act that fails once the operands have their values. -/
theorem Own.raisedBy {p : Program} {id raiser : NodeId} {node found : Node}
    {f : Nat → State → Outcome Value} {st mid : State} {values : List Value} {e : EvalError}
    (h : p.Own id node f mid raiser found e) (hget : p.arena.get? id = some node)
    (hoperands : p.evaluateAll node.form.children st = ⟨.ok values, mid⟩)
    (hvalue : p.evaluate id st = f node.line mid) : p.RaisedBy id st raiser found e := by
  obtain ⟨rfl, rfl, hraises, hmessage, hline, hresult⟩ := h
  refine ⟨.refl, hget, hraises, hmessage, hline, st, values, mid, .self _ _, hoperands, ?_⟩
  rw [hvalue, hresult]

section Acts

variable {p : Program} {id : NodeId} {line : Nat}

theorem attributed_literal (value : Literal) :
    p.Attributed (p.RaisedBy id) fun p' st => .done (p'.literalValue value) st where
  ok {st last v} h p' hp' := by
    rw [← h]
    unfold literalValue
    rw [hp'.names]
  error h := by cases h

theorem attributed_applyUnary {op : UnaryOp} {operand : NodeId}
    (hget : p.arena.get? id = some ⟨.unary op operand, line⟩) (v : Value) :
    p.Attributed (p.Own id ⟨.unary op operand, line⟩ fun line st => st.applyUnary op v line)
      fun p' st => st.applyUnary op v (p'.lineOf id) := by
  refine Attributed.of_own hget (f := fun line st => st.applyUnary op v line) fun st => ?_
  unfold State.applyUnary
  rcases hop : op.apply v with fault | found
  · exact .inr ⟨fault, op.raises_of_apply hop _ operand, fun _ => rfl⟩
  · exact .inl ⟨found, st, fun _ => rfl⟩

theorem attributed_applyBinary {op : BinaryOp} {left right : NodeId}
    (hget : p.arena.get? id = some ⟨.binary op left right, line⟩) (l r : Value) :
    p.Attributed (p.Own id ⟨.binary op left right, line⟩ fun line st => st.applyBinary op l r line)
      fun p' st => st.applyBinary op l r (p'.lineOf id) := by
  refine Attributed.of_own hget (f := fun line st => st.applyBinary op l r line) fun st => ?_
  unfold State.applyBinary
  rcases hop : op.apply l r with fault | found
  · exact .inr ⟨fault, op.raises_of_apply hop _ left right, fun _ => rfl⟩
  · exact .inl ⟨found, st, fun _ => rfl⟩

theorem attributed_readName {name : Name} (hget : p.arena.get? id = some ⟨.read name, line⟩) :
    p.Attributed (p.Own id ⟨.read name, line⟩ (p.readName name))
      fun p' st => p'.readName name (p'.lineOf id) st := by
  have h : p.Attributed (p.Own id ⟨.read name, line⟩ (p.readName name))
      fun p' st => p.readName name (p'.lineOf id) st := by
    refine Attributed.of_own hget (f := p.readName name) fun st => ?_
    unfold readName Env.get
    rcases st.env.lookup? name with _ | v
    · exact .inr ⟨_, .read name, fun _ => rfl⟩
    · exact .inl ⟨v, st, fun _ => rfl⟩
  refine h.congr fun p' hp' st => ?_
  unfold readName undefined
  rw [hp'.names]

theorem attributed_assignName {name : Name} {value : NodeId}
    (hget : p.arena.get? id = some ⟨.assign name value, line⟩) (v : Value) :
    p.Attributed (p.Own id ⟨.assign name value, line⟩ (p.assignName name v))
      fun p' st => p'.assignName name v (p'.lineOf id) st := by
  have h : p.Attributed (p.Own id ⟨.assign name value, line⟩ (p.assignName name v))
      fun p' st => p.assignName name v (p'.lineOf id) st := by
    refine Attributed.of_own hget (f := p.assignName name v) fun st => ?_
    unfold assignName Env.assign
    rcases st.env.resolve? name with _ | i
    · exact .inr ⟨_, .assign name value, fun _ => rfl⟩
    · exact .inl ⟨v, _, fun _ => rfl⟩
  refine h.congr fun p' hp' st => ?_
  unfold assignName undefined
  rw [hp'.names]

end Acts

/-- **One node.** If its operands are evaluated with errors attributed, so is the node. -/
theorem evalNode_attributed {p : Program} (hp : p.arena.Acyclic) {id : NodeId} {form : Form}
    {line : Nat} (hget : p.arena.get? id = some ⟨form, line⟩)
    (hev : ∀ child ∈ form.children, p.Attributed (p.RaisedBy child) fun p' => p'.evaluate child) :
    p.Attributed (p.RaisedBy id) fun p' => p'.evalNode p'.evaluate ⟨form, p'.lineOf id⟩ := by
  have hvalue : ∀ st, p.evaluate id st = p.evalNode p.evaluate ⟨form, line⟩ st := by
    intro st
    rw [evaluate_eq hp, hget]
  -- The first operand is evaluated from the state that the node is evaluated from.
  have hfirst : ∀ {child rest}, form.children = child :: rest →
      p.Attributed (p.RaisedBy id) fun p' => p'.evaluate child := by
    intro child rest hchildren
    have hmem : child ∈ form.children := by
      rw [hchildren]
      exact List.mem_cons_self
    refine (hev child hmem).mono ?_
    intro st raiser found e h
    have hnone : p.evaluateAll [] st = ⟨.ok [], st⟩ := rfl
    exact h.of_operand hget hchildren hnone
  cases form with
  | literal value => exact attributed_literal value
  | grouping inner => exact hfirst rfl
  | unary op operand =>
    refine (hfirst rfl).andThen fun v => (attributed_applyUnary hget v).mono ?_
    intro mid raiser found e hown st hrun
    refine hown.raisedBy hget (evaluateAll_one hrun) ?_
    rw [hvalue, evalNode, hrun]
    rfl
  | binary op left right =>
    -- The right operand starts where the left one has left the state.
    have hright : ∀ l, p.Attributed (Behind (p.evaluate left) (p.RaisedBy id) l)
        fun p' => p'.evaluate right := by
      intro l
      refine (hev right (by simp)).mono ?_
      intro mid raiser found e h st hleft
      exact h.of_operand hget rfl (evaluateAll_one hleft)
    refine (hfirst rfl).andThen fun l => (hright l).andThen fun r =>
      (attributed_applyBinary hget l r).mono ?_
    intro last raiser found e hown mid hrun st hleft
    refine hown.raisedBy hget (evaluateAll_two hleft hrun) ?_
    rw [hvalue, evalNode, hleft, Outcome.andThen, hrun]
    rfl
  | read name =>
    refine (attributed_readName hget).mono ?_
    intro st raiser found e hown
    exact hown.raisedBy hget rfl (hvalue st)
  | assign name value =>
    refine (hfirst rfl).andThen fun v => (attributed_assignName hget v).mono ?_
    intro mid raiser found e hown st hrun
    refine hown.raisedBy hget (evaluateAll_one hrun) ?_
    rw [hvalue, evalNode, hrun]
    rfl

/-- **Every expression.** Errors are attributed to the node that raises them. -/
theorem evaluate_attributed {p : Program} (hp : p.arena.Acyclic) (id : NodeId) :
    p.Attributed (p.RaisedBy id) fun p' => p'.evaluate id := by
  induction id using hp.induct with
  | missing id hget =>
    have hmissing : ∀ st, p.evaluate id st = .fail (p.missing id) st := by
      intro st
      rw [evaluate_eq hp, hget]
    refine ⟨fun h => ?_, fun h => ?_⟩ <;> rw [hmissing] at h <;> cases h
  | node id form line hget ih =>
    refine (evalNode_attributed hp hget ih).congr fun p' hp' st => ?_
    obtain ⟨line', hget'⟩ := hp'.get?_eq hget
    rw [evaluate_eq (hp'.acyclic hp), hget', lineOf_eq hget']

end Program

/-! ## Statements -/

namespace Stmt

mutual

/-- The statement with all its lines, and those of the statements inside, at zero. -/
def unlined : Stmt → Stmt
  | .expression value _ => .expression value 0
  | .print value _ => .print value 0
  | .declare name init _ => .declare name init 0
  | .block body _ => .block (unlinedAll body) 0

/-- Statements without their lines. -/
def unlinedAll : List Stmt → List Stmt
  | [] => []
  | stmt :: rest => unlined stmt :: unlinedAll rest

end

theorem length_unlinedAll (stmts : List Stmt) : (unlinedAll stmts).length = stmts.length := by
  induction stmts with
  | nil => rfl
  | cons stmt rest ih => exact congrArg (· + 1) ih

end Stmt

namespace Program

mutual

theorem execute_unlined (p : Program) : (stmt : Stmt) → (st : State) →
    p.execute stmt.unlined st = p.execute stmt st
  | .expression _ _, st | .print _ _, st | .declare _ _ _, st => by
    rw [Stmt.unlined, execute, execute]
  | .block body _, st => by
    rw [Stmt.unlined, execute, execute, executeAll_unlined p body]

/-- The lines of statements are never read. -/
theorem executeAll_unlined (p : Program) : (stmts : List Stmt) → (st : State) →
    p.executeAll (Stmt.unlinedAll stmts) st = p.executeAll stmts st
  | [], st => by rw [Stmt.unlinedAll]
  | stmt :: rest, st => by
    rw [Stmt.unlinedAll, executeAll, executeAll, execute_unlined p stmt]
    simp only [executeAll_unlined p rest]

end

theorem executeAll_congr_unlined (p : Program) {stmts stmts' : List Stmt}
    (h : Stmt.unlinedAll stmts' = Stmt.unlinedAll stmts) (st : State) :
    p.executeAll stmts' st = p.executeAll stmts st := by
  rw [← executeAll_unlined, h, executeAll_unlined]

theorem leafValue_sameForms {p p' : Program} (hp : p.arena.Acyclic) (hp' : p.SameForms p')
    {leaf : Stmt} {st mid : State} {value : Value} (h : p.leafValue leaf st = ⟨.ok value, mid⟩) :
    p'.leafValue leaf st = ⟨.ok value, mid⟩ := by
  rw [leafValue] at h ⊢
  generalize leaf.root? = root at h ⊢
  rcases root with _ | id
  · exact h
  · exact (evaluate_attributed hp id).ok h p' hp'

/-- What succeeds does so on any lines. -/
theorem Completes.sameForms {p p' : Program} {done : List Move} {st mid : State}
    {values : List Value} (h : p.Completes done st values mid) (hp : p.arena.Acyclic)
    (hp' : p.SameForms p') : p'.Completes done st values mid := by
  induction h with
  | nil st => exact .nil st
  | enter _ ih => exact .enter ih
  | leave _ ih => exact .leave ih
  | leaf hvalue _ ih => exact .leaf (leafValue_sameForms hp hp' hvalue) ih

/-- The run of the statements gets to a leaf in the state `mid`, and the expression of that leaf
fails there. -/
def FailsAt (p : Program) (stmts : List Stmt) (st : State) (root : NodeId) (mid : State)
    (halt : Halt) : Prop :=
  ∃ done leaf values, done ++ [.leaf leaf] <+: Stmt.movesAll stmts ∧
    p.Completes done st values mid ∧ leaf.root? = some root ∧
    (p.evaluate root mid).result = .error halt

/-- **Statements.** The error is that of the expression that failed, and on other lines the run is
the same. -/
theorem executeAll_attributed {p : Program} (hp : p.arena.Acyclic) {stmts : List Stmt}
    {st : State} {e : EvalError} (h : (p.executeAll stmts st).result = .error (.error e)) :
    ∃ root mid raiser node, p.FailsAt stmts st root mid (.error e) ∧
      p.RaisedBy root mid raiser node e ∧
      ∀ p', p.Relined raiser p' → ∀ stmts', Stmt.unlinedAll stmts' = Stmt.unlinedAll stmts →
        p'.executeAll stmts' st = p.executeAll stmts st := by
  obtain ⟨values, last, hdone⟩ |
      ⟨done, leaf, after, values, mid, halt, last, hmoves, hdone, hleaf⟩ :=
    p.progresses (Stmt.movesAll stmts) st
  · rw [executeAll_of_completes hdone] at h
    cases h
  · have hbegins : done ++ [.leaf leaf] <+: Stmt.movesAll stmts := ⟨after, by simp [hmoves]⟩
    have hrun := executeAll_of_stops hdone hleaf hbegins
    rw [hrun] at h ⊢
    cases h
    -- A leaf without an expression would not have failed.
    obtain ⟨root, hroot, heval⟩ | ⟨hvalue, -⟩ := leafValue_cases hleaf
    · obtain ⟨raiser, node, hraised, hlines⟩ := (evaluate_attributed hp root).error heval
      refine ⟨root, mid, raiser, node, ⟨done, leaf, values, hbegins, hdone, hroot, by rw [heval]⟩,
        hraised, fun p' hp' stmts' hstmts' => ?_⟩
      have hleaf' : p'.leafValue leaf mid = ⟨.error (.error e), last⟩ := by
        rw [leafValue, hroot]
        exact hlines p' hp'
      rw [p'.executeAll_congr_unlined hstmts',
        executeAll_of_stops (hdone.sameForms hp hp'.toSameForms) hleaf' hbegins]
    · cases hvalue

/-! ## From the outside -/

/-- The error is attributed to a node below the root, reads as it should, and stays the same, with
all the rest of the run, when other lines change. -/
def Blames (p : Program) (root : NodeId) (st : State) (e : EvalError) (Same : Program → Prop) :
    Prop :=
  ∃ raiser node, p.RaisedBy root st raiser node e ∧ e.message = e.fault.message ∧
    e.text = e.message ++ " [line " ++ toString node.line ++ "]" ∧
    ∀ p', p.Relined raiser p' → Same p'

theorem RaisedBy.blames {p : Program} {root raiser : NodeId} {st : State} {node : Node}
    {e : EvalError} (h : p.RaisedBy root st raiser node e) {Same : Program → Prop}
    (hsame : ∀ p', p.Relined raiser p' → Same p') : p.Blames root st e Same := by
  have htext : e.text = e.message ++ " [line " ++ toString node.line ++ "]" := by
    rw [EvalError.text, h.line]
  exact ⟨raiser, node, h, h.message, htext, hsame⟩

theorem execute_eq_executeAll (p : Program) (stmt : Stmt) (st : State) :
    p.execute stmt st = p.executeAll [stmt] st := by
  rw [executeAll_cons]
  simp only [executeAll_nil]
  exact (Outcome.andThen_done _).symm

/-- **Every error names its node.** In an arena without cycles, whichever way a program is run, an
error that ends it carries the line of a node below the expression that failed. That node itself
failed, when its operands had their values, and it is of a form that raises such an error. No other
line plays a part: with the other nodes and all statements on other lines, the run is the same to
the last event. -/
theorem errors_name_their_node (p : Program) (hp : p.arena.Acyclic) (st : State) (e : EvalError) :
    (∀ id, (p.evaluate id st).result = .error (.error e) →
        p.Blames id st e fun p' => p'.evaluate id st = p.evaluate id st) ∧
      (∀ stmt, (p.execute stmt st).result = .error (.error e) →
        ∃ root mid, p.FailsAt [stmt] st root mid (.error e) ∧ p.Blames root mid e fun p' =>
          ∀ stmt', stmt'.unlined = stmt.unlined → p'.execute stmt' st = p.execute stmt st) ∧
      (∀ body, (p.executeBlock body st).result = .error (.error e) →
        ∃ root mid, p.FailsAt body st.enterBlock root mid (.error e) ∧ p.Blames root mid e fun p' =>
          ∀ body', Stmt.unlinedAll body' = Stmt.unlinedAll body →
            p'.executeBlock body' st = p.executeBlock body st) ∧
      ∀ stmts, (p.interpret stmts st).result = .error (.error e) →
        ∃ root mid, p.FailsAt stmts (st.record (.started stmts.length)) root mid (.error e) ∧
          p.Blames root mid e fun p' =>
            ∀ stmts', Stmt.unlinedAll stmts' = Stmt.unlinedAll stmts →
              p'.interpret stmts' st = p.interpret stmts st := by
  refine ⟨fun id h => ?_, fun stmt h => ?_, fun body h => ?_, fun stmts h => ?_⟩
  · rcases ho : p.evaluate id st with ⟨result, last⟩
    rw [ho] at h
    subst h
    obtain ⟨raiser, node, hraised, hlines⟩ := (evaluate_attributed hp id).error ho
    exact hraised.blames hlines
  · rw [execute_eq_executeAll] at h
    obtain ⟨root, mid, raiser, node, hfails, hraised, hlines⟩ := executeAll_attributed hp h
    refine ⟨root, mid, hfails, hraised.blames fun p' hp' stmt' hstmt' => ?_⟩
    rw [execute_eq_executeAll, execute_eq_executeAll]
    refine hlines p' hp' [stmt'] ?_
    rw [Stmt.unlinedAll, hstmt']
    rfl
  · have hbody : (p.executeAll body st.enterBlock).result = .error (.error e) := h
    obtain ⟨root, mid, raiser, node, hfails, hraised, hlines⟩ := executeAll_attributed hp hbody
    refine ⟨root, mid, hfails, hraised.blames fun p' hp' body' hbody' => ?_⟩
    rw [executeBlock, executeBlock, hlines p' hp' body' hbody']
  · rw [result_interpret] at h
    obtain ⟨root, mid, raiser, node, hfails, hraised, hlines⟩ := executeAll_attributed hp h
    refine ⟨root, mid, hfails, hraised.blames fun p' hp' stmts' hstmts' => ?_⟩
    have hlength : stmts'.length = stmts.length := by
      rw [← Stmt.length_unlinedAll, hstmts', Stmt.length_unlinedAll]
    rw [interpret, interpret, hlength, hlines p' hp' stmts' hstmts']

/-- The difference `"" - (nil - true)`, each part on a line of its own. -/
def brokenDifference : Program where
  names := .new
  arena := ⟨#[⟨.binary .sub ⟨1⟩ ⟨2⟩, 1⟩, ⟨.literal (.string ⟨0⟩), 2⟩, ⟨.grouping ⟨3⟩, 3⟩,
    ⟨.binary .sub ⟨4⟩ ⟨5⟩, 4⟩, ⟨.literal .nil, 5⟩, ⟨.literal (.boolean true), 6⟩]⟩

theorem acyclic_brokenDifference : brokenDifference.arena.Acyclic :=
  Arena.acyclic_of_rank (fun i => 6 - i) (by decide)

/-- Two blocks deep, the inner of two differences fails, on its own line. -/
theorem errors_name_their_node_brokenDifference :
    let e : EvalError := ⟨.typeMismatch .numbers, "Operands must be numbers", some 4⟩
    brokenDifference.arena.Acyclic ∧
      (brokenDifference.interpret [.block [.block [.print ⟨0⟩ 9] 8] 7] (.new .silent)).result =
        .error (.error e) ∧
      e.text = "Operands must be numbers [line 4]" ∧
      ∃ root mid, brokenDifference.FailsAt [.block [.block [.print ⟨0⟩ 9] 8] 7]
          ((State.new .silent).record (.started 1)) root mid (.error e) ∧
        brokenDifference.Blames root mid e fun p' =>
          ∀ stmts', Stmt.unlinedAll stmts' = [.block [.block [.print ⟨0⟩ 0] 0] 0] →
            p'.interpret stmts' (.new .silent) =
              brokenDifference.interpret [.block [.block [.print ⟨0⟩ 9] 8] 7] (.new .silent) := by
  intro e
  have hresult : (brokenDifference.interpret [.block [.block [.print ⟨0⟩ 9] 8] 7]
      (.new .silent)).result = .error (.error e) := by
    decide +kernel
  exact ⟨acyclic_brokenDifference, hresult, by decide,
    (errors_name_their_node brokenDifference acyclic_brokenDifference (.new .silent) _).2.2.2 _
      hresult⟩

end Program

end ScriptCore
