/-
What is added later changes no run.

While a program runs, expressions may have been added to its arena and texts to its table that it
knows nothing of. Positions and names stay as they are, so a node is still found where it was and a
name that had a text still reads as that text. What does change is what is missing: a reference that
led nowhere may now lead to one of the new nodes, and a name without a text may have got one.

So the runs that stay the same are those which meet no missing expression, whatever else their
expressions refer to. A run may well end with an error before it comes to a reference that leads
nowhere. The proof therefore follows the rules by which the run came about, and not the expressions:
a derivation over the smaller program is one over the larger program as well, step by step
(`Evaluation.grow`, `Execution.grow`).
-/
import ScriptCore.Proofs.Interning
import ScriptCore.Proofs.Renaming
import ScriptCore.Proofs.Termination

set_option autoImplicit false

namespace ScriptCore

/-- The table has a text for the name. -/
def NameTable.Has (t : NameTable) (name : Name) : Prop := name.index < t.size

instance (t : NameTable) (name : Name) : Decidable (t.Has name) :=
  inferInstanceAs (Decidable (name.index < t.size))

/-! ## Names below an expression and in statements -/

namespace Arena

variable {a : Arena} {name : Name}

theorem Holds.of_held {id : NodeId} {form : Form} {line : Nat}
    (hget : a.get? id = some ⟨form, line⟩) (h : form.held? = some name) : a.Holds id name :=
  ⟨id, _, .refl, hget, h⟩

/-- What is below an operand is below the node. -/
theorem Holds.of_operand {child id : NodeId} (hoperand : a.Operand child id)
    (h : a.Holds child name) : a.Holds id name := by
  obtain ⟨below, node, hbelow, hget, hheld⟩ := h
  exact ⟨below, node, hbelow.tail hoperand, hget, hheld⟩

theorem occurs_cons (stmt : Stmt) (rest : List Stmt) :
    a.Occurs (stmt :: rest) name ↔ a.Occurs [stmt] name ∨ a.Occurs rest name := by
  simp only [Occurs, Stmt.leavesAll, List.mem_append, List.append_nil, or_and_right, exists_or]

theorem Occurs.of_root {leaf : Stmt} {root : NodeId} (hroot : leaf.root? = some root)
    (h : a.Holds root name) : a.Occurs [leaf] name := by
  refine ⟨leaf, ?_, .inr ⟨root, hroot, h⟩⟩
  cases leaf with
  | expression | print | declare => exact List.mem_singleton.2 rfl
  | block => cases hroot

end Arena

/-! ## Programs that have grown -/

namespace Outcome

/-- What comes first meets no missing expression if the whole does not. -/
theorem FindsAll.of_andThen {α β : Type} {o : Outcome α} {next : α → State → Outcome β}
    (h : (o.andThen next).FindsAll) : o.FindsAll := by
  obtain ⟨halt | a, st⟩ := o
  · intro size id hmissing
    obtain rfl := Except.error.inj hmissing
    exact h size id rfl
  · exact nofun

/-- The type of the result makes no difference to an outcome without one. -/
theorem FindsAll.of_error {α β : Type} {halt : Halt} {st st' : State}
    (h : (⟨.error halt, st⟩ : Outcome α).FindsAll) : (⟨.error halt, st'⟩ : Outcome β).FindsAll := by
  intro size id hmissing
  obtain rfl := Except.error.inj hmissing
  exact h size id rfl

end Outcome

namespace Program

/-- Expressions and texts have been added behind those that were there. -/
structure Extends (p p' : Program) : Prop where
  arena : p.arena.nodes.toList <+: p'.arena.nodes.toList
  names : p.names.texts.toList <+: p'.names.texts.toList

namespace Extends

variable {p p' : Program} (h : p.Extends p')

include h

theorem get? {id : NodeId} {node : Node} (hget : p.arena.get? id = some node) :
    p'.arena.get? id = some node := by
  obtain ⟨hlt, rfl⟩ := Array.getElem?_eq_some_iff.1 hget
  rw [Arena.get?, ← Array.getElem?_toList]
  exact List.prefix_iff_getElem?.1 h.arena id.index hlt

/-- Whatever refers back to itself still does in the larger arena. -/
theorem acyclic (hp' : p'.arena.Acyclic) : p.arena.Acyclic := by
  have hle : p.arena.Operand ≤ p'.arena.Operand := by
    rintro child parent ⟨node, hget, hmem⟩
    exact ⟨node, h.get? hget, hmem⟩
  intro id hcycle
  exact hp' id (Relation.TransGen.mono hle id id hcycle)

theorem text {name : Name} (hname : p.names.Has name) :
    p'.names.text name = p.names.text name := by
  have hget : p.names.texts[name.index]? = some p.names.texts[name.index] :=
    Array.getElem?_eq_getElem hname
  rw [NameTable.text_of_getElem? hget,
    NameTable.text_of_getElem? (NameTable.getElem?_of_isPrefix h.names hget)]

/-! The three places where an evaluation looks a text up. -/

theorem literalValue {l : Literal} (hheld : ∀ name, l = .string name → p.names.Has name) :
    p'.literalValue l = p.literalValue l := by
  cases l with
  | string name => exact congrArg Value.string (h.text (hheld name rfl))
  | number | boolean | nil => rfl

theorem readName {name : Name} (hname : p.names.Has name) (line : Nat) (st : State) :
    p'.readName name line st = p.readName name line st := by
  unfold Program.readName Env.get
  rcases st.env.lookup? name with _ | value
  · simp only [undefined_eq (h.text hname) line]
  · rfl

theorem assignName {name : Name} (hname : p.names.Has name) (v : Value) (line : Nat) (st : State) :
    p'.assignName name v line st = p.assignName name v line st := by
  unfold Program.assignName Env.assign
  rcases st.env.resolve? name with _ | i
  · simp only [undefined_eq (h.text hname) line]
  · rfl

end Extends

/-! ## Runs that carry over -/

variable {p p' : Program}

/-- **An evaluation that meets no missing expression carries over.** The induction is on the
derivation. An operand that the evaluation did not come to has no derivation, and nothing is asked
of it. -/
theorem Evaluation.grow (h : p.Extends p') {id : NodeId} {st : State} {n : Nat} {o : Outcome Value}
    (hrun : p.Evaluation id st n o) (hheld : ∀ name, p.arena.Holds id name → p.names.Has name)
    (hfinds : o.FindsAll) : p'.Evaluation id st n o := by
  -- The names below an operand are among those below the node.
  have hbelow : ∀ {id form line child}, p.arena.get? id = some ⟨form, line⟩ →
      child ∈ form.children → (∀ name, p.arena.Holds id name → p.names.Has name) →
      ∀ name, p.arena.Holds child name → p.names.Has name := by
    intro id form line child hget hmem hheld name hname
    exact hheld name (hname.of_operand ⟨_, hget, hmem⟩)
  induction hrun with
  | @missing id st hget => exact absurd rfl (hfinds p.arena.size id)
  | @literal id l line st hget =>
    rw [← h.literalValue fun name hl => hheld name (.of_held hget (by rw [hl]; rfl))]
    exact .literal (h.get? hget)
  | @read id name line st hget =>
    rw [← h.readName (hheld name (.of_held hget rfl))]
    exact .read (h.get? hget)
  | grouping hget _ ih =>
    exact .grouping (h.get? hget) (ih (hbelow hget (by simp) hheld) hfinds)
  | unary hget _ ih =>
    exact .unary (h.get? hget) (ih (hbelow hget (by simp) hheld) hfinds.of_andThen)
  | leftHalts hget _ ih =>
    exact .leftHalts (h.get? hget) (ih (hbelow hget (by simp) hheld) hfinds)
  | binary hget _ _ ihl ihr =>
    have hleft := ihl (hbelow hget (by simp) hheld) nofun
    have hright := ihr (hbelow hget (by simp) hheld) hfinds.of_andThen
    exact .binary (h.get? hget) hleft hright
  | @assign id value name line _ _ o hget _ ih =>
    have hvalue := ih (hbelow hget (by simp) hheld) hfinds.of_andThen
    have hname := hheld name (.of_held hget rfl)
    simp only [← h.assignName hname]
    exact .assign (h.get? hget) hvalue

/-- **So does an execution**, statement by statement. -/
theorem Execution.grow (h : p.Extends p') {stmts : List Stmt} {st : State} {n : Nat}
    {o : Outcome Unit} (hrun : p.Execution stmts st n o)
    (hoccurs : ∀ name, p.arena.Occurs stmts name → p.names.Has name) (hfinds : o.FindsAll) :
    p'.Execution stmts st n o := by
  have hroot : ∀ {leaf rest root}, leaf.root? = some root →
      (∀ name, p.arena.Occurs (leaf :: rest) name → p.names.Has name) →
      ∀ name, p.arena.Holds root name → p.names.Has name := by
    intro leaf rest root hroot hoccurs name hname
    exact hoccurs name ((Arena.occurs_cons leaf rest).2 (.inl (.of_root hroot hname)))
  have hrest : ∀ {stmt rest}, (∀ name, p.arena.Occurs (stmt :: rest) name → p.names.Has name) →
      ∀ name, p.arena.Occurs rest name → p.names.Has name := by
    intro stmt rest hoccurs name hname
    exact hoccurs name ((Arena.occurs_cons stmt rest).2 (.inr hname))
  have hbody : ∀ {body line rest},
      (∀ name, p.arena.Occurs (.block body line :: rest) name → p.names.Has name) →
      ∀ name, p.arena.Occurs body name → p.names.Has name := by
    intro body line rest hoccurs name hname
    rw [← p.arena.occurs_block body line] at hname
    exact hoccurs name ((Arena.occurs_cons _ rest).2 (.inl hname))
  induction hrun with
  | nil st => exact .nil st
  | leaf hleaf hvalue _ ih =>
    exact .leaf hleaf (hvalue.grow h (hroot hleaf hoccurs) nofun) (ih (hrest hoccurs) hfinds)
  | leafHalts hleaf hvalue =>
    exact .leafHalts hleaf (hvalue.grow h (hroot hleaf hoccurs) hfinds.of_error)
  | bare _ ih => exact .bare (ih (hrest hoccurs) hfinds)
  | block _ _ ihBody ih =>
    exact .block (ihBody (hbody hoccurs) nofun) (ih (hrest hoccurs) hfinds)
  | blockHalts _ ih => exact .blockHalts (ih (hbody hoccurs) hfinds.of_error)

theorem Extends.executeAll_eq (h : p.Extends p') (hp' : p'.arena.Acyclic) {stmts : List Stmt}
    {st : State} (hoccurs : ∀ name, p.arena.Occurs stmts name → p.names.Has name)
    (hfinds : (p.executeAll stmts st).FindsAll) :
    p'.executeAll stmts st = p.executeAll stmts st := by
  obtain ⟨n, hrun⟩ := (endsWithin_executeAll (h.acyclic hp') stmts st).ends
  exact ((hrun.grow h hoccurs hfinds).eq_executeAll hp').symm

/-- **Additions change no run.** A program is extended by expressions behind its own and by texts
behind those of its table, and without cycles. Then whatever runs without meeting a missing
expression, and mentions only names that had a text, runs as before, be it an expression, a
statement, a block or a program. The whole outcome is the same: the value or the error with its text
and line, the environment, the output with the report of the error, and the trace. -/
theorem runs_survive_additions (p p' : Program) (h : p.Extends p') (hp' : p'.arena.Acyclic)
    (st : State) :
    (∀ id, (∀ name, p.arena.Holds id name → p.names.Has name) → (p.evaluate id st).FindsAll →
      p'.evaluate id st = p.evaluate id st) ∧
    (∀ stmt, (∀ name, p.arena.Occurs [stmt] name → p.names.Has name) →
      (p.execute stmt st).FindsAll → p'.execute stmt st = p.execute stmt st) ∧
    (∀ body, (∀ name, p.arena.Occurs body name → p.names.Has name) →
      (p.executeBlock body st).FindsAll → p'.executeBlock body st = p.executeBlock body st) ∧
    ∀ stmts, (∀ name, p.arena.Occurs stmts name → p.names.Has name) →
      (p.interpret stmts st).FindsAll → p'.interpret stmts st = p.interpret stmts st := by
  have hstmt : ∀ stmt, (∀ name, p.arena.Occurs [stmt] name → p.names.Has name) →
      (p.execute stmt st).FindsAll → p'.execute stmt st = p.execute stmt st := by
    intro stmt hoccurs hfinds
    rw [execute_eq_executeAll] at hfinds
    rw [execute_eq_executeAll, execute_eq_executeAll]
    exact h.executeAll_eq hp' hoccurs hfinds
  refine ⟨?_, hstmt, ?_, ?_⟩
  · intro id hheld hfinds
    obtain ⟨n, hrun⟩ := (endsWithin_evaluate (h.acyclic hp') id st).ends
    exact ((hrun.grow h hheld hfinds).eq_evaluate hp').symm
  · -- A block is a statement, on whatever line.
    intro body hoccurs hfinds
    rw [← p.arena.occurs_block body 0] at hoccurs
    rw [← execute_block p body 0] at hfinds
    rw [← execute_block p body 0, ← execute_block p' body 0]
    exact hstmt (.block body 0) hoccurs hfinds
  · intro stmts hoccurs hfinds
    have hall : (p.executeAll stmts (st.record (.started stmts.length))).FindsAll := by
      intro size id hmissing
      rw [← result_interpret] at hmissing
      exact hfinds size id hmissing
    rw [interpret_eq_reported, interpret_eq_reported, h.executeAll_eq hp' hoccurs hall]

/-- An addition whose right operand is not there yet. Its left operand is a variable. -/
def unfinished : Program where
  names := tangled.names
  arena := ⟨#[⟨.binary .add ⟨1⟩ ⟨3⟩, 1⟩, ⟨.read ⟨1⟩, 2⟩, ⟨.literal (.string ⟨1⟩), 3⟩]⟩

/-- The right operand has been added, and the text `y`. -/
def finished : Program where
  names := ⟨#["", "x", "y"], tangled.names.indices.insert "y" 2⟩
  arena := (unfinished.arena.add ⟨.literal (.boolean true), 4⟩).2

/-- The addition is asked for in a block, behind a line of text. -/
def adding : List Stmt := [.block [.print ⟨2⟩ 1, .expression ⟨0⟩ 2] 1, .print ⟨2⟩ 3]

theorem has_of_occurs_adding {name : Name} (h : unfinished.arena.Occurs adding name) :
    unfinished.names.Has name := by
  have hforms : ∀ node ∈ unfinished.arena.nodes, ∀ name ∈ node.form.held?,
      unfinished.names.Has name := by decide
  have hdeclared : ∀ leaf ∈ Stmt.leavesAll adding, ∀ name ∈ leaf.declared,
      unfinished.names.Has name := by decide
  obtain ⟨leaf, hleaf, hmem | ⟨root, -, id, node, -, hget, hheld⟩⟩ := h
  · exact hdeclared leaf hleaf name hmem
  · exact hforms node (Array.mem_of_getElem? hget) name hheld

/-- The variable has no value, so the run ends before it comes to the operand that is missing. -/
theorem runs_survive_additions_unfinished :
    unfinished.Extends finished ∧ finished.arena.Acyclic ∧
      (∀ name, unfinished.arena.Occurs adding name → unfinished.names.Has name) ∧
      (unfinished.interpret adding resumed).FindsAll ∧
      finished.interpret adding resumed = unfinished.interpret adding resumed ∧
      (finished.interpret adding resumed).state.output.captured =
        ⟨"first\nx\n", "old\nUndefined variable 'x'. [line 2]\n"⟩ := by
  have hextends : unfinished.Extends finished := ⟨⟨[_], rfl⟩, ⟨["y"], rfl⟩⟩
  have hacyclic : finished.arena.Acyclic :=
    Arena.acyclic_of_rank (fun i => if i = 0 then 1 else 0) (by decide)
  have hoccurs : ∀ name, unfinished.arena.Occurs adding name → unfinished.names.Has name :=
    fun _ hname => has_of_occurs_adding hname
  have hresult : (unfinished.interpret adding resumed).result =
      .error (.error ⟨.undefinedVariable "x", "Undefined variable 'x'.", some 2⟩) := by
    decide +kernel
  have hfinds : (unfinished.interpret adding resumed).FindsAll := by
    intro size id hmissing
    cases hresult.symm.trans hmissing
  obtain ⟨-, -, -, hrun⟩ := runs_survive_additions unfinished finished hextends hacyclic resumed
  exact ⟨hextends, hacyclic, hoccurs, hfinds, hrun adding hoccurs hfinds, by decide +kernel⟩

end Program

end ScriptCore
