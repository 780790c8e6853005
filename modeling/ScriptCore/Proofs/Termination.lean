/-
Every run comes to an end.

The evaluator of the arena carries a limit on the references it may still follow. Here evaluation is
said once more without a limit: `Evaluation` has a rule for each form, in which the value of a node
is made of evaluations of its operands, and counts the calls in the longest chain of calls inside
each other. A derivation is finite, so to have one is to terminate.

In an arena without cycles every expression has a derivation (`exists_evaluation`), it ends as the
evaluator with the limit does (`Evaluation.eq_evaluate`), and its chains are no longer than the
chains of references (`Evaluation.le_of_within`). There are at most as many nodes on such a chain as
the arena holds, and one reference that leads nowhere may stand at its end. The number of
evaluations is another matter: a node that serves two others is evaluated twice.

An arena that is built bottom-up has no cycles, and of what it refers to nothing is missing.
-/
import ScriptCore.Proofs.Attribution
import ScriptCore.Proofs.Resumption

set_option autoImplicit false

namespace ScriptCore

/-! ## How a run may end -/

/-- No reference was followed that leads nowhere. -/
def Outcome.FindsAll {α : Type} (o : Outcome α) : Prop :=
  ∀ size id, o.result ≠ .error (.missing size id)

/-- There is a result or an error of the language. -/
def Outcome.Answers {α : Type} (o : Outcome α) : Prop :=
  (∃ a, o.result = .ok a) ∨ ∃ e, o.result = .error (.error e)

theorem Outcome.Answers.findsAll {α : Type} {o : Outcome α} (h : o.Answers) : o.FindsAll := by
  intro size id hmissing
  rcases h with ⟨a, ha⟩ | ⟨e, he⟩
  · cases ha.symm.trans hmissing
  · cases he.symm.trans hmissing

theorem Outcome.FindsAll.andThen {α β : Type} {o : Outcome α} {next : α → State → Outcome β}
    (h : o.FindsAll) (hnext : ∀ a st, (next a st).FindsAll) : (o.andThen next).FindsAll := by
  obtain ⟨halt | a, st⟩ := o
  · intro size id hmissing
    cases hmissing
    exact h size id rfl
  · exact hnext a st

namespace Program

variable {p : Program}

/-- The three ways to end, which exclude each other: with a result, with an error of the language,
or at a reference that leads nowhere. -/
inductive Settles (p : Program) {α : Type} : Except Halt α → Prop where
  | result (a : α) : Settles p (.ok a)
  | error (e : EvalError) : Settles p (.error (.error e))
  | missing {id : NodeId} : p.arena.size ≤ id.index → Settles p (.error (p.missing id))

theorem Settles.andThen {α β : Type} {o : Outcome α} {next : α → State → Outcome β}
    (h : p.Settles o.result) (hnext : ∀ a st, p.Settles (next a st).result) :
    p.Settles (o.andThen next).result := by
  obtain ⟨halt | a, st⟩ := o
  · rcases h with - | e | hid
    · exact .error e
    · exact .missing hid
  · exact hnext a st

/-- Where a run halts, what comes behind it makes no difference to how it ends. -/
theorem Settles.of_error {α β : Type} {halt : Halt} (h : p.Settles (.error halt : Except Halt α)) :
    p.Settles (.error halt : Except Halt β) := by
  rcases h with - | e | hid
  · exact .error e
  · exact .missing hid

/-! An operator and a variable have a value or raise an error. -/

theorem Settles.of_answers {α : Type} {o : Outcome α} (h : o.Answers) : p.Settles o.result := by
  obtain ⟨a, ha⟩ | ⟨e, he⟩ := h
  · rw [ha]
    exact .result a
  · rw [he]
    exact .error e

theorem applyUnary_answers (op : UnaryOp) (v : Value) (line : Nat) (st : State) :
    (st.applyUnary op v line).Answers := by
  unfold State.applyUnary
  rcases op.apply v with fault | value
  · exact .inr ⟨_, rfl⟩
  · exact .inl ⟨value, rfl⟩

theorem applyBinary_answers (op : BinaryOp) (l r : Value) (line : Nat) (st : State) :
    (st.applyBinary op l r line).Answers := by
  unfold State.applyBinary
  rcases op.apply l r with fault | value
  · exact .inr ⟨_, rfl⟩
  · exact .inl ⟨value, rfl⟩

theorem readName_answers (name : Name) (line : Nat) (st : State) :
    (p.readName name line st).Answers := by
  unfold readName
  rcases st.env.get name line with unbound | value
  · exact .inr ⟨_, rfl⟩
  · exact .inl ⟨value, rfl⟩

theorem assignName_answers (name : Name) (v : Value) (line : Nat) (st : State) :
    (p.assignName name v line st).Answers := by
  unfold assignName
  rcases st.env.assign name v line with unbound | env
  · exact .inr ⟨_, rfl⟩
  · exact .inl ⟨v, rfl⟩

/-! ## Evaluation without a limit -/

/-- The call for `id` from a state comes to an outcome, and `n` is the length of the longest chain
of calls inside each other, this one counted. -/
inductive Evaluation (p : Program) : NodeId → State → Nat → Outcome Value → Prop where
  | missing {id : NodeId} {st : State} : p.arena.get? id = none →
      Evaluation p id st 1 (.fail (p.missing id) st)
  | literal {id : NodeId} {l : Literal} {line : Nat} {st : State} :
      p.arena.get? id = some ⟨.literal l, line⟩ →
      Evaluation p id st 1 (.done (p.literalValue l) st)
  | read {id : NodeId} {name : Name} {line : Nat} {st : State} :
      p.arena.get? id = some ⟨.read name, line⟩ →
      Evaluation p id st 1 (p.readName name line st)
  | grouping {id inner : NodeId} {line n : Nat} {st : State} {o : Outcome Value} :
      p.arena.get? id = some ⟨.grouping inner, line⟩ → Evaluation p inner st n o →
      Evaluation p id st (n + 1) o
  | unary {id operand : NodeId} {op : UnaryOp} {line n : Nat} {st : State} {o : Outcome Value} :
      p.arena.get? id = some ⟨.unary op operand, line⟩ → Evaluation p operand st n o →
      Evaluation p id st (n + 1) (o.andThen fun v st => st.applyUnary op v line)
  /-- The right operand is not called for if the left one fails. -/
  | leftHalts {id left right : NodeId} {op : BinaryOp} {line n : Nat} {st mid : State}
      {halt : Halt} : p.arena.get? id = some ⟨.binary op left right, line⟩ →
      Evaluation p left st n ⟨.error halt, mid⟩ →
      Evaluation p id st (n + 1) ⟨.error halt, mid⟩
  | binary {id left right : NodeId} {op : BinaryOp} {line n m : Nat} {st mid : State} {l : Value}
      {o : Outcome Value} : p.arena.get? id = some ⟨.binary op left right, line⟩ →
      Evaluation p left st n ⟨.ok l, mid⟩ → Evaluation p right mid m o →
      Evaluation p id st (max n m + 1) (o.andThen fun r st => st.applyBinary op l r line)
  | assign {id value : NodeId} {name : Name} {line n : Nat} {st : State} {o : Outcome Value} :
      p.arena.get? id = some ⟨.assign name value, line⟩ → Evaluation p value st n o →
      Evaluation p id st (n + 1) (o.andThen fun v st => p.assignName name v line st)

namespace Evaluation

variable {id : NodeId} {st : State} {n : Nat} {o : Outcome Value}

/-- The limit of the evaluator makes no difference. The induction is on the derivation, and each
rule is the equation of its form. -/
theorem eq_evaluate (hp : p.arena.Acyclic) (h : p.Evaluation id st n o) :
    o = p.evaluate id st := by
  induction h with
  | missing hget => rw [evaluate_eq hp, hget]
  | literal hget | read hget =>
    rw [evaluate_eq hp, hget]
    rfl
  | grouping hget _ ih =>
    rw [evaluate_eq hp, hget]
    exact ih
  | unary hget _ ih | assign hget _ ih =>
    rw [evaluate_eq hp, hget, ih]
    rfl
  | leftHalts hget _ ih =>
    rw [evaluate_eq hp, hget]
    simp only [evalNode, ← ih]
    rfl
  | binary hget _ _ ihl ihr =>
    rw [evaluate_eq hp, hget]
    simp only [evalNode, ← ihl, ihr]
    rfl

/-- Calls inside each other follow a chain of references. -/
theorem le_of_within {k : Nat} (hid : p.arena.Within k id) (h : p.Evaluation id st n o) :
    n ≤ k := by
  induction h generalizing k with
  | missing | literal | read =>
    rcases k with _ | k
    · exact hid.elim
    · omega
  | grouping hget _ ih | unary hget _ ih | leftHalts hget _ ih | assign hget _ ih =>
    rcases k with _ | k
    · exact hid.elim
    · -- The operand that was called for has one reference less to go.
      have hle := ih (hid _ ⟨_, hget, by simp⟩)
      omega
  | binary hget _ _ ihl ihr =>
    rcases k with _ | k
    · exact hid.elim
    · have hleft := ihl (hid _ ⟨_, hget, by simp⟩)
      have hright := ihr (hid _ ⟨_, hget, by simp⟩)
      omega

theorem settles (h : p.Evaluation id st n o) : p.Settles o.result := by
  induction h with
  | @missing id st hget => exact .missing ((p.arena.get?_eq_none_iff id).1 hget)
  | @literal id l line st hget => exact .result (p.literalValue l)
  | @read id name line st hget => exact .of_answers (readName_answers name line st)
  | grouping _ _ ih | leftHalts _ _ ih => exact ih
  | @unary id operand op line _ _ _ _ _ ih =>
    exact ih.andThen fun v st => .of_answers (applyUnary_answers op v line st)
  | @binary id left right op line _ _ _ _ l _ _ _ _ _ ih =>
    exact ih.andThen fun r st => .of_answers (applyBinary_answers op l r line st)
  | @assign id value name line _ _ _ _ _ ih =>
    exact ih.andThen fun v st => .of_answers (assignName_answers name v line st)

end Evaluation

/-- **Every expression has an evaluation.** The induction goes along the references; there is no
limit that could be reached. -/
theorem exists_evaluation (hp : p.arena.Acyclic) (id : NodeId) (st : State) :
    ∃ n o, p.Evaluation id st n o := by
  induction id using hp.induct generalizing st with
  | missing id hget => exact ⟨_, _, .missing hget⟩
  | node id form line hget ih =>
    cases form with
    | literal l => exact ⟨_, _, .literal hget⟩
    | read name => exact ⟨_, _, .read hget⟩
    | grouping inner =>
      obtain ⟨n, o, h⟩ := ih inner (by simp) st
      exact ⟨_, _, .grouping hget h⟩
    | unary op operand =>
      obtain ⟨n, o, h⟩ := ih operand (by simp) st
      exact ⟨_, _, .unary hget h⟩
    | binary op left right =>
      obtain ⟨n, ⟨halt | l, mid⟩, hleft⟩ := ih left (by simp) st
      · exact ⟨_, _, .leftHalts hget hleft⟩
      · obtain ⟨m, o, hright⟩ := ih right (by simp) mid
        exact ⟨_, _, .binary hget hleft hright⟩
    | assign name value =>
      obtain ⟨n, o, h⟩ := ih value (by simp) st
      exact ⟨_, _, .assign hget h⟩

/-! ## Statements -/

/-- The statements come to an outcome, and `n` is the length of the longest chain of calls inside
each other in any one of them. -/
inductive Execution (p : Program) : List Stmt → State → Nat → Outcome Unit → Prop where
  | nil (st : State) : Execution p [] st 0 (.done () st)
  | leaf {leaf : Stmt} {rest : List Stmt} {root : NodeId} {st mid : State} {n m : Nat} {v : Value}
      {o : Outcome Unit} : leaf.root? = some root → p.Evaluation root st n ⟨.ok v, mid⟩ →
      Execution p rest (leaf.finish v mid) m o → Execution p (leaf :: rest) st (max n m) o
  | leafHalts {leaf : Stmt} {rest : List Stmt} {root : NodeId} {st mid : State} {n : Nat}
      {halt : Halt} : leaf.root? = some root → p.Evaluation root st n ⟨.error halt, mid⟩ →
      Execution p (leaf :: rest) st n ⟨.error halt, mid⟩
  /-- A variable that is declared without a value calls for no expression. -/
  | bare {name : Name} {line : Nat} {rest : List Stmt} {st : State} {n : Nat} {o : Outcome Unit} :
      Execution p rest (st.define name .nil) n o →
      Execution p (.declare name none line :: rest) st n o
  | block {body rest : List Stmt} {line : Nat} {st mid : State} {n m : Nat} {o : Outcome Unit} :
      Execution p body st.enterBlock n ⟨.ok (), mid⟩ → Execution p rest mid.closeScope m o →
      Execution p (.block body line :: rest) st (max n m) o
  | blockHalts {body rest : List Stmt} {line : Nat} {st mid : State} {n : Nat} {halt : Halt} :
      Execution p body st.enterBlock n ⟨.error halt, mid⟩ →
      Execution p (.block body line :: rest) st n ⟨.error halt, mid.closeScope⟩

/-- A statement with an expression does as the expression, and then with its value what is to be
done. -/
theorem execute_of_root {leaf : Stmt} {root : NodeId} (h : leaf.root? = some root) (st : State) :
    p.execute leaf st = (p.evaluate root st).andThen fun v st => .done () (leaf.finish v st) := by
  cases leaf with
  | expression value line | print value line =>
    cases h
    rw [execute]
    rfl
  | declare name init line =>
    cases h
    rw [execute]
    rfl
  | block body line => cases h

namespace Execution

variable {stmts : List Stmt} {st : State} {n : Nat} {o : Outcome Unit}

theorem eq_executeAll (hp : p.arena.Acyclic) (h : p.Execution stmts st n o) :
    o = p.executeAll stmts st := by
  induction h with
  | nil st => rw [executeAll_nil]
  | leaf hroot hvalue _ ih =>
    rw [executeAll_cons, execute_of_root hroot, ← hvalue.eq_evaluate hp, ih]
    rfl
  | leafHalts hroot hvalue =>
    rw [executeAll_cons, execute_of_root hroot, ← hvalue.eq_evaluate hp]
    rfl
  | bare _ ih =>
    rw [executeAll_cons, execute, ih]
    rfl
  | block _ _ ihBody ih =>
    rw [executeAll_cons, execute, ← ihBody, ih]
    rfl
  | blockHalts _ ih =>
    rw [executeAll_cons, execute, ← ih]
    rfl

theorem le_of_acyclic (hp : p.arena.Acyclic) (h : p.Execution stmts st n o) :
    n ≤ p.arena.size + 1 := by
  induction h with
  | nil => omega
  | leaf _ hvalue _ ih =>
    have hle := hvalue.le_of_within (hp.within _)
    omega
  | leafHalts _ hvalue => exact hvalue.le_of_within (hp.within _)
  | bare _ ih => exact ih
  | block _ _ ihBody ih => omega
  | blockHalts _ ih => exact ih

theorem settles (h : p.Execution stmts st n o) : p.Settles o.result := by
  induction h with
  | nil => exact .result ()
  | leaf _ _ _ ih => exact ih
  | leafHalts _ hvalue => exact hvalue.settles.of_error
  | bare _ ih => exact ih
  | block _ _ _ ih => exact ih
  | blockHalts _ ih => exact ih

end Execution

/-- **All statements have an execution.** The recursion is on the statements, and goes into the
bodies of blocks. -/
theorem exists_execution (hp : p.arena.Acyclic) : (stmts : List Stmt) → (st : State) →
    ∃ n o, p.Execution stmts st n o
  | [], st => ⟨_, _, .nil st⟩
  | .block body line :: rest, st => by
    obtain ⟨n, ⟨halt | _, mid⟩, hbody⟩ := exists_execution hp body st.enterBlock
    · exact ⟨_, _, .blockHalts hbody⟩
    · obtain ⟨m, o, hrest⟩ := exists_execution hp rest mid.closeScope
      exact ⟨_, _, .block hbody hrest⟩
  | .declare name none line :: rest, st => by
    obtain ⟨n, o, hrest⟩ := exists_execution hp rest (st.define name .nil)
    exact ⟨_, _, .bare hrest⟩
  | .declare name (some root) line :: rest, st => by
    obtain ⟨n, ⟨halt | v, mid⟩, hvalue⟩ := exists_evaluation hp root st
    · exact ⟨_, _, .leafHalts rfl hvalue⟩
    · obtain ⟨m, o, hrest⟩ := exists_execution hp rest (mid.define name v)
      exact ⟨_, _, .leaf rfl hvalue hrest⟩
  | .expression root line :: rest, st => by
    obtain ⟨n, ⟨halt | v, mid⟩, hvalue⟩ := exists_evaluation hp root st
    · exact ⟨_, _, .leafHalts rfl hvalue⟩
    · obtain ⟨m, o, hrest⟩ := exists_execution hp rest mid
      exact ⟨_, _, .leaf rfl hvalue hrest⟩
  | .print root line :: rest, st => by
    obtain ⟨n, ⟨halt | v, mid⟩, hvalue⟩ := exists_evaluation hp root st
    · exact ⟨_, _, .leafHalts rfl hvalue⟩
    · obtain ⟨m, o, hrest⟩ := exists_execution hp rest (mid.printLine v.text)
      exact ⟨_, _, .leaf rfl hvalue hrest⟩

end Program

/-! ## Arenas built bottom-up -/

namespace Arena

/-- Expressions are added one by one, and what an expression refers to is there before it. -/
inductive BottomUp : Arena → Prop where
  | empty : BottomUp .empty
  | add {a : Arena} {node : Node} : BottomUp a →
      (∀ child ∈ node.form.children, child.index < a.size) → BottomUp (a.add node).2

variable {a : Arena}

theorem BottomUp.operand_lt (h : a.BottomUp) {child parent : NodeId}
    (hoperand : a.Operand child parent) : child.index < parent.index := by
  induction h with
  | empty =>
    obtain ⟨node, hget, -⟩ := hoperand
    cases hget
  | @add a node _ hchildren ih =>
    obtain ⟨found, hget, hmem⟩ := hoperand
    rw [get?_add] at hget
    by_cases hlast : parent.index = a.size
    · rw [if_pos hlast] at hget
      obtain rfl := Option.some.inj hget
      rw [hlast]
      exact hchildren child hmem
    · rw [if_neg hlast] at hget
      exact ih ⟨found, hget, hmem⟩

/-- References that lead backwards never come back. -/
theorem BottomUp.acyclic (h : a.BottomUp) : a.Acyclic := by
  apply acyclic_of_rank id
  intro i child hmem
  have hget : a.get? ⟨i⟩ = some a.nodes[i] := Array.getElem?_eq_getElem i.isLt
  have hoperand : a.Operand child ⟨i⟩ := ⟨_, hget, hmem⟩
  exact h.operand_lt hoperand

end Arena

namespace Program

variable {p : Program}

/-- Below a node of such an arena no reference leads nowhere. -/
theorem Evaluation.findsAll (hp : p.arena.BottomUp) {id : NodeId} {st : State} {n : Nat}
    {o : Outcome Value} (h : p.Evaluation id st n o) (hid : id.index < p.arena.size) :
    o.FindsAll := by
  have hchild : ∀ {id form line child}, p.arena.get? id = some ⟨form, line⟩ →
      child ∈ form.children → id.index < p.arena.size → child.index < p.arena.size := by
    intro id form line child hget hmem hid
    exact Nat.lt_trans (hp.operand_lt ⟨_, hget, hmem⟩) hid
  induction h with
  | @missing id st hget =>
    have hle := (p.arena.get?_eq_none_iff id).1 hget
    omega
  | literal => exact nofun
  | @read id name line st hget => exact (readName_answers name line st).findsAll
  | grouping hget _ ih | leftHalts hget _ ih => exact ih (hchild hget (by simp) hid)
  | @unary id operand op line _ _ _ hget _ ih =>
    exact (ih (hchild hget (by simp) hid)).andThen fun v st =>
      (applyUnary_answers op v line st).findsAll
  | @binary id left right op line _ _ _ _ l _ hget _ _ _ ih =>
    exact (ih (hchild hget (by simp) hid)).andThen fun r st =>
      (applyBinary_answers op l r line st).findsAll
  | @assign id value name line _ _ _ hget _ ih =>
    exact (ih (hchild hget (by simp) hid)).andThen fun v st =>
      (assignName_answers name v line st).findsAll

/-- What the three expressions of `negating` refer to stands before them. -/
theorem bottomUp_negating : negating.arena.BottomUp := by
  have hbuilt : negating.arena =
      (((Arena.empty.add ⟨.literal (.boolean true), 1⟩).2.add ⟨.read ⟨1⟩, 2⟩).2.add
        ⟨.unary .neg ⟨1⟩, 3⟩).2 := rfl
  rw [hbuilt]
  refine .add (.add (.add .empty ?_) ?_) ?_
  · decide
  · decide
  · decide

/-! ## From the outside -/

/-- By the rules the run comes to this outcome and to no other. It is one of the three ways to end,
and no chain of calls inside each other is longer than the arena has nodes, and one. -/
structure EndsWithin {α : Type} (p : Program) (rules : Nat → Outcome α → Prop) (o : Outcome α) :
    Prop where
  settles : p.Settles o.result
  ends : ∃ n, rules n o
  only : ∀ n o', rules n o' → o' = o ∧ n ≤ p.arena.size + 1

theorem endsWithin_evaluate (hp : p.arena.Acyclic) (id : NodeId) (st : State) :
    p.EndsWithin (p.Evaluation id st) (p.evaluate id st) := by
  obtain ⟨n, o, h⟩ := exists_evaluation hp id st
  obtain rfl := h.eq_evaluate hp
  refine ⟨h.settles, ⟨n, h⟩, ?_⟩
  intro m o' h'
  exact ⟨h'.eq_evaluate hp, h'.le_of_within (hp.within id)⟩

theorem endsWithin_executeAll (hp : p.arena.Acyclic) (stmts : List Stmt) (st : State) :
    p.EndsWithin (p.Execution stmts st) (p.executeAll stmts st) := by
  obtain ⟨n, o, h⟩ := exists_execution hp stmts st
  obtain rfl := h.eq_executeAll hp
  refine ⟨h.settles, ⟨n, h⟩, ?_⟩
  intro m o' h'
  exact ⟨h'.eq_executeAll hp, h'.le_of_acyclic hp⟩

/-- The rules for a whole program: its statements end, and an error is reported. -/
def Interpretation (p : Program) (stmts : List Stmt) (st : State) (n : Nat) (o : Outcome Unit) :
    Prop :=
  ∃ o', p.Execution stmts (st.record (.started stmts.length)) n o' ∧ o = o'.reported

theorem endsWithin_interpret (hp : p.arena.Acyclic) (stmts : List Stmt) (st : State) :
    p.EndsWithin (p.Interpretation stmts st) (p.interpret stmts st) := by
  have h := endsWithin_executeAll hp stmts (st.record (.started stmts.length))
  rw [interpret_eq_reported]
  refine ⟨?_, ?_, ?_⟩
  · rw [← interpret_eq_reported, result_interpret]
    exact h.settles
  · obtain ⟨n, hn⟩ := h.ends
    exact ⟨n, _, hn, rfl⟩
  · rintro n o ⟨o', ho', rfl⟩
    obtain ⟨hsame, hle⟩ := h.only n o' ho'
    exact ⟨congrArg Outcome.reported hsame, hle⟩

/-- **Every run ends, within a depth that the arena bounds.** In an arena without cycles, an
expression, a statement, a block and a program each come to an end without any limit on the calls.
They end as the evaluator says, in one of three ways: with a result, with an error of the language,
or at a reference that leads nowhere. No chain of calls inside each other is longer than the number
of nodes, and one. An arena built bottom-up is one without cycles, and there no expression that it
holds ever comes to a reference that leads nowhere. -/
theorem runs_end_within_arena (p : Program) (st : State) :
    (p.arena.Acyclic →
      (∀ id, p.EndsWithin (p.Evaluation id st) (p.evaluate id st)) ∧
      (∀ stmt, p.EndsWithin (p.Execution [stmt] st) (p.execute stmt st)) ∧
      (∀ body line, p.EndsWithin (p.Execution [.block body line] st) (p.executeBlock body st)) ∧
      ∀ stmts, p.EndsWithin (p.Interpretation stmts st) (p.interpret stmts st)) ∧
    (p.arena.BottomUp → p.arena.Acyclic ∧
      ∀ id, id.index < p.arena.size → (p.evaluate id st).FindsAll) := by
  refine ⟨fun hp => ?_, fun hp => ⟨hp.acyclic, ?_⟩⟩
  · have hstmt : ∀ stmt, p.EndsWithin (p.Execution [stmt] st) (p.execute stmt st) := by
      intro stmt
      rw [execute_eq_executeAll]
      exact endsWithin_executeAll hp [stmt] st
    refine ⟨fun id => endsWithin_evaluate hp id st, hstmt, ?_, ?_⟩
    · intro body line
      rw [← execute_block p body line]
      exact hstmt (.block body line)
    · intro stmts
      exact endsWithin_interpret hp stmts st
  · intro id hid
    obtain ⟨n, h⟩ := (endsWithin_evaluate hp.acyclic id st).ends
    exact h.findsAll hp hid

/-- A node in two places and a reference that leads nowhere, and an arena built bottom-up. -/
theorem runs_end_within_arena_tangled :
    let stmts := [.print ⟨0⟩ 1, .block [.expression ⟨3⟩ 2] 2]
    tangled.arena.Acyclic ∧
      tangled.EndsWithin (tangled.Evaluation ⟨3⟩ resumed) (tangled.evaluate ⟨3⟩ resumed) ∧
      (tangled.evaluate ⟨3⟩ resumed).result = .error (.missing 5 ⟨9⟩) ∧
      tangled.EndsWithin (tangled.Interpretation stmts resumed)
        (tangled.interpret stmts resumed) ∧
      negating.arena.BottomUp ∧ 2 < negating.arena.size ∧
      (negating.evaluate ⟨2⟩ resumed).FindsAll := by
  intro stmts
  obtain ⟨hexpr, -, -, hprogram⟩ := (runs_end_within_arena tangled resumed).1 Arena.acyclic_tangled
  obtain ⟨-, hfinds⟩ := (runs_end_within_arena negating resumed).2 bottomUp_negating
  have hlast : 2 < negating.arena.size := by decide
  exact ⟨Arena.acyclic_tangled, hexpr ⟨3⟩, by decide +kernel, hprogram stmts, bottomUp_negating,
    hlast, hfinds ⟨2⟩ hlast⟩

end Program

end ScriptCore
