/-
Runs of flat programs are runs of their trees.

The evaluator looks its operands up in an arena, keeps scopes in an array of links and counts how
deep it goes. The rules of `ScriptCore.Proofs.TreeSemantics` know a tree and a stack of maps. On an
arena without cycles the two agree on all that can be seen: the result, the environment down to
its links, and the lines written, in order (`Realizes`).

Expressions go by induction along the references of the arena, one lemma for each form; statements
by recursion on their own structure. A block is the one place where the sides differ in shape: the
run pops whatever scope is current, the rule drops the map it had added. They meet because no
statement changes the number of live scopes.
-/
import ScriptCore.Proofs.TreeSemantics
import ScriptCore.Proofs.ScopeMachine
import ScriptCore.Run.Statement

set_option autoImplicit false

namespace ScriptCore

/-- The run has the ending that the rules give, and the rules give no other. -/
def Outcome.Realizes {α : Type} (o : Outcome α) (before : State) (Ends : Ending α → Prop) : Prop :=
  ∃ e, Ends e ∧ (∀ e', Ends e' → e' = e) ∧
    o.result = e.result ∧ o.state.env = Env.ofStack e.scopes ∧
    before.output.Receives (.ofLines e.lines) o.state.output

/-- A derivation settles the run: the ending it gives is the one the run has. -/
theorem Outcome.Realizes.ending {α : Type} {o : Outcome α} {before : State}
    {Ends : Ending α → Prop} (h : o.Realizes before Ends) {e : Ending α} (he : Ends e) :
    o.result = e.result ∧ o.state.env = Env.ofStack e.scopes ∧
      before.output.Receives (.ofLines e.lines) o.state.output := by
  obtain ⟨e', -, hunique, hrun⟩ := h
  rw [hunique e he]
  exact hrun

/-! ## Expressions -/

/-- A run of an expression obeys the rules, and leaves the number of scopes and the output. -/
structure Evaluated (p : Program) (t : Tree) (st : State) (o : Outcome Value) : Prop where
  rule : Evaluates p.names.text t st.env.stack o.result o.state.env.stack
  linked : o.state.env.Linked
  depth : o.state.env.depth = st.env.depth
  output : o.state.output = st.output

theorem State.result_applyUnary (st : State) (op : UnaryOp) (v : Value) (line : Nat) :
    (st.applyUnary op v line).result = (op.apply v).mapError (·.endsAt line) := by
  rw [State.applyUnary]
  rcases op.apply v with fault | value
  · exact congrArg Except.error (fault.endsAt_eq line).symm
  · rfl

theorem State.result_applyBinary (st : State) (op : BinaryOp) (l r : Value) (line : Nat) :
    (st.applyBinary op l r line).result = (op.apply l r).mapError (·.endsAt line) := by
  rw [State.applyBinary]
  rcases op.apply l r with fault | value
  · exact congrArg Except.error (fault.endsAt_eq line).symm
  · rfl

namespace Evaluated

variable {p : Program} {t : Tree} {st : State} {o : Outcome Value}

theorem literal (hst : st.env.Linked) (l : Literal) :
    Evaluated p (.literal l) st (.done (p.literalValue l) st) := by
  have hvalue : p.literalValue l = l.valueIn p.names.text := by cases l <;> rfl
  rw [hvalue]
  exact ⟨.literal l _, hst, rfl, rfl⟩

theorem grouping (h : Evaluated p t st o) : Evaluated p (.grouping t) st o :=
  ⟨.grouping h.rule, h.linked, h.depth, h.output⟩

theorem unary (h : Evaluated p t st o) (op : UnaryOp) (line : Nat) :
    Evaluated p (.unary op t line) st (o.andThen fun v st => st.applyUnary op v line) := by
  obtain ⟨halt | v, mid⟩ := o
  · exact ⟨.unaryHalt h.rule, h.linked, h.depth, h.output⟩
  · refine ⟨?_, ?_, ?_, ?_⟩
    · rw [Outcome.andThen, State.result_applyUnary, State.env_applyUnary]
      exact .unary h.rule ((unaryRule_iff op v _).2 rfl)
    · rw [Outcome.andThen, State.env_applyUnary]
      exact h.linked
    · rw [Outcome.andThen, State.env_applyUnary]
      exact h.depth
    · rw [Outcome.andThen, State.output_applyUnary]
      exact h.output

/-- The right operand is run from the state the left one left, and only if it left a value. -/
theorem binary (h : Evaluated p t st o) {u : Tree} {right : State → Outcome Value}
    (hright : ∀ st, st.env.Linked → Evaluated p u st (right st)) (op : BinaryOp) (line : Nat) :
    Evaluated p (.binary op t u line) st
      (o.andThen fun l st => (right st).andThen fun r st => st.applyBinary op l r line) := by
  obtain ⟨halt | l, mid⟩ := o
  · exact ⟨.leftHalt h.rule, h.linked, h.depth, h.output⟩
  · -- The left operand may have assigned variables, but the scopes are still linked.
    have hr := hright mid h.linked
    rw [Outcome.andThen]
    generalize right mid = o at hr
    obtain ⟨halt | r, last⟩ := o
    · exact ⟨.rightHalt h.rule hr.rule, hr.linked, hr.depth.trans h.depth,
        hr.output.trans h.output⟩
    · refine ⟨?_, ?_, ?_, ?_⟩
      · rw [Outcome.andThen, State.result_applyBinary, State.env_applyBinary]
        exact .binary h.rule hr.rule ((binaryRule_iff op l r _).2 rfl)
      · rw [Outcome.andThen, State.env_applyBinary]
        exact hr.linked
      · rw [Outcome.andThen, State.env_applyBinary]
        exact hr.depth.trans h.depth
      · rw [Outcome.andThen, State.output_applyBinary]
        exact hr.output.trans h.output

theorem read (hst : st.env.Linked) (name : Name) (line : Nat) :
    Evaluated p (.read name line) st (p.readName name line st) := by
  rw [Program.readName, Env.get, Env.lookup?_eq_stack hst]
  rcases hv : st.env.stack.lookup? name with _ | v
  · exact ⟨.readUnbound hv, hst, rfl, rfl⟩
  · exact ⟨.read hv, hst, rfl, rfl⟩

theorem assign (h : Evaluated p t st o) (name : Name) (line : Nat) :
    Evaluated p (.assign name t line) st
      (o.andThen fun v st => p.assignName name v line st) := by
  obtain ⟨halt | v, mid⟩ := o
  · exact ⟨.assignHalt h.rule, h.linked, h.depth, h.output⟩
  · -- Of the four pairs of endings, the two mixed ones contradict `assign_eq_stack`.
    have hassign := Env.assign_eq_stack h.linked name v line
    rw [Outcome.andThen, Program.assignName]
    rcases ha : mid.env.assign name v line with unbound | env <;>
      rcases hs : mid.env.stack.assign? name v with _ | s <;>
      simp only [ha, hs, Except.map, reduceCtorEq, Except.ok.injEq, Except.error.injEq] at hassign
    · subst hassign
      exact ⟨.assignUnbound h.rule hs, h.linked, h.depth, h.output⟩
    · subst hassign
      exact ⟨.assign h.rule hs, h.linked.assign ha, (Env.depth_of_assign ha).trans h.depth,
        h.output⟩

end Evaluated

namespace Program

variable {p : Program}

/-- Evaluating a position obeys the rules for the tree below it. -/
theorem evaluate_evaluated (hp : p.arena.Acyclic) (id : NodeId) (st : State)
    (hst : st.env.Linked) : Evaluated p (p.arena.tree id) st (p.evaluate id st) := by
  induction id using hp.induct generalizing st with
  | missing id hget =>
    rw [Arena.tree_eq hp, evaluate_eq hp, hget]
    exact ⟨.missing _ _ _, hst, rfl, rfl⟩
  | node id form line hget ih =>
    rw [Arena.tree_eq hp, evaluate_eq hp, hget]
    cases form with
    | literal l => exact .literal hst l
    | grouping inner => exact (ih inner (by simp) st hst).grouping
    | unary op operand => exact (ih operand (by simp) st hst).unary op line
    | binary op left right =>
      exact (ih left (by simp) st hst).binary (ih right (by simp)) op line
    | read name => exact .read hst name line
    | assign name value => exact (ih value (by simp) st hst).assign name line

end Program

/-! ## Statements -/

/-- A run of statements obeys the rules given for them, and leaves the number of scopes. -/
structure Executed (Rule : ScopeStack → Ending Unit → Prop) (st : State) (o : Outcome Unit)
    (lines : List Line) : Prop where
  rule : Rule st.env.stack ⟨o.result, o.state.env.stack, lines⟩
  linked : o.state.env.Linked
  depth : o.state.env.depth = st.env.depth
  output : o.state.output = st.output.writeAll lines

/-- Statements whose rules allow one ending realize it. -/
theorem Executed.realizes {Rule : ScopeStack → Ending Unit → Prop} {st : State} {o : Outcome Unit}
    {lines : List Line} (h : Executed Rule st o lines)
    (hunique : ∀ e e', Rule st.env.stack e → Rule st.env.stack e' → e = e') :
    o.Realizes st (Rule st.env.stack) := by
  refine ⟨⟨o.result, o.state.env.stack, lines⟩, h.rule, fun e' he' => hunique _ _ he' h.rule, rfl,
    h.linked.eq_ofStack, ?_⟩
  rw [h.output]
  exact Output.receives_writeAll st.output lines

/-- Closing a scope that is not the root takes one map off the stack. -/
theorem Env.stack_eq_cons_pop {env : Env} (h : env.Linked) (hdepth : 1 < env.depth) :
    ∃ own, env.stack = own :: env.pop.stack := by
  rw [stack_pop h]
  rw [← length_stack] at hdepth
  generalize env.stack = s at hdepth
  rcases s with _ | ⟨own, _ | ⟨next, rest⟩⟩
  · exact absurd hdepth (by simp)
  · exact absurd hdepth (by simp)
  · exact ⟨own, rfl⟩

theorem Executed.closeScope {p : Program} {body : List StmtTree} {st : State} {o : Outcome Unit}
    {lines : List Line} (hst : st.env.Linked)
    (h : Executed (ExecutesAll p.names.text body) st.enterBlock o lines) :
    Executed (Executes p.names.text (.block body)) st o.closeScope lines := by
  have hopen : o.state.env.depth = st.env.depth + 1 := h.depth.trans (Env.depth_push st.env)
  have hroot : 0 < st.env.depth := hst.depth_pos
  -- The body left one scope more than the block started from; popping takes that one.
  obtain ⟨own, hown⟩ := Env.stack_eq_cons_pop h.linked (by omega)
  refine ⟨?_, h.linked.pop, ?_, h.output⟩
  · have hbody := h.rule
    rw [hown, State.env_enterBlock, Env.stack_push] at hbody
    exact .block hbody
  · have hlength := congrArg List.length hown
    rw [Env.length_stack, List.length_cons, Env.length_stack, hopen] at hlength
    exact (Nat.succ.inj hlength).symm

namespace Program

variable {p : Program}

mutual

/-- Executing a statement obeys the rules for its tree. -/
theorem execute_executed (hp : p.arena.Acyclic) : (stmt : Stmt) → (st : State) →
    st.env.Linked →
    ∃ lines, Executed (Executes p.names.text (p.arena.stmtTree stmt)) st (p.execute stmt st) lines
  | .expression id _, st, hst => by
    have h := evaluate_evaluated hp id st hst
    rw [execute, Arena.stmtTree]
    generalize p.evaluate id st = o at h
    obtain ⟨halt | v, mid⟩ := o
    · exact ⟨[], .expressionHalt h.rule, h.linked, h.depth, h.output⟩
    · exact ⟨[], .expression h.rule, h.linked, h.depth, h.output⟩
  | .print id _, st, hst => by
    have h := evaluate_evaluated hp id st hst
    rw [execute, Arena.stmtTree]
    generalize p.evaluate id st = o at h
    obtain ⟨halt | v, mid⟩ := o
    · exact ⟨[], .printHalt h.rule, h.linked, h.depth, h.output⟩
    · refine ⟨[.printed v.text], .print h.rule ((v.prints_iff _).2 rfl), h.linked, h.depth, ?_⟩
      exact congrArg (·.printLine v.text) h.output
  | .declare name none _, st, hst => by
    rw [execute, Arena.stmtTree, initialValue]
    refine ⟨[], ?_, hst.define name .nil, Env.depth_define _ _ _, rfl⟩
    rw [Outcome.done_andThen, Outcome.done, State.env_define, Env.stack_define hst]
    exact .declareNil name _
  | .declare name (some id) _, st, hst => by
    have h := evaluate_evaluated hp id st hst
    rw [execute, Arena.stmtTree, initialValue]
    generalize p.evaluate id st = o at h
    obtain ⟨halt | v, mid⟩ := o
    · exact ⟨[], .declareHalt h.rule, h.linked, h.depth, h.output⟩
    · refine ⟨[], ?_, h.linked.define name v, (Env.depth_define _ _ _).trans h.depth, h.output⟩
      rw [Outcome.andThen, Outcome.done, State.env_define, Env.stack_define h.linked]
      exact .declare h.rule
  | .block body _, st, hst => by
    obtain ⟨lines, h⟩ := executeAll_executed hp body st.enterBlock hst.push
    rw [execute, Arena.stmtTree]
    exact ⟨lines, h.closeScope hst⟩

/-- Executing statements in order obeys the rules for their trees. -/
theorem executeAll_executed (hp : p.arena.Acyclic) : (stmts : List Stmt) → (st : State) →
    st.env.Linked →
    ∃ lines,
      Executed (ExecutesAll p.names.text (p.arena.stmtTrees stmts)) st (p.executeAll stmts st) lines
  | [], st, hst => by
    rw [executeAll, Arena.stmtTrees]
    exact ⟨[], .nil _, hst, rfl, rfl⟩
  | stmt :: rest, st, hst => by
    obtain ⟨lines, h⟩ := execute_executed hp stmt st hst
    rw [executeAll, Arena.stmtTrees]
    generalize p.execute stmt st = o at h
    obtain ⟨halt | _, mid⟩ := o
    · exact ⟨lines, .halt h.rule, h.linked, h.depth, h.output⟩
    · obtain ⟨lines', hrest⟩ := executeAll_executed hp rest mid h.linked
      refine ⟨lines ++ lines', .cons h.rule hrest.rule, hrest.linked,
        hrest.depth.trans h.depth, ?_⟩
      rw [Output.writeAll_append, ← h.output]
      exact hrest.output

end

/-- Running a program obeys the rules for its trees. -/
theorem interpret_executed (hp : p.arena.Acyclic) (stmts : List Stmt) (st : State)
    (hst : st.env.Linked) :
    ∃ lines,
      Executed (Interprets p.names.text (p.arena.stmtTrees stmts)) st (p.interpret stmts st)
        lines := by
  obtain ⟨lines, h⟩ := executeAll_executed hp stmts (st.record (.started stmts.length)) hst
  rw [interpret]
  generalize p.executeAll stmts (st.record (.started stmts.length)) = o at h
  obtain ⟨halt | _, mid⟩ := o
  · -- What the rules fail for is an error on a line or a missing expression.
    cases ExecutesAll.known _ h.rule halt rfl with
    | error fault message line =>
      -- The report is written behind all that the statements have written.
      have hmid : mid.output = st.output.writeAll lines := h.output
      refine ⟨lines ++ [.reported (message ++ " [line " ++ toString line ++ "]")], ?_, h.linked,
        h.depth, ?_⟩
      · exact Interprets.error h.rule
      · rw [Output.writeAll_append, ← hmid]
        rfl
    | missing size id => exact ⟨lines, .missing h.rule, h.linked, h.depth, h.output⟩
  · exact ⟨lines, .done h.rule, h.linked, h.depth, h.output⟩

/-- **Flat runs are tree runs.** In an arena without cycles and from every environment that can be
reached, each way to run a program has exactly the ending that the rules give to its trees: the
same value, error or missing expression, the same scopes, the same lines in the same order. -/
theorem runs_realize_trees (p : Program) (hp : p.arena.Acyclic) (st : State)
    (hst : st.env.Reachable) :
    (∀ id, (p.evaluate id st).Realizes st fun e =>
        Evaluates p.names.text (p.arena.tree id) st.env.stack e.result e.scopes ∧ e.lines = []) ∧
      (∀ stmt, (p.execute stmt st).Realizes st
        (Executes p.names.text (p.arena.stmtTree stmt) st.env.stack)) ∧
      (∀ body, (p.executeBlock body st).Realizes st
        (Executes p.names.text (.block (p.arena.stmtTrees body)) st.env.stack)) ∧
      ∀ stmts, (p.interpret stmts st).Realizes st
        (Interprets p.names.text (p.arena.stmtTrees stmts) st.env.stack) := by
  have hlinked := hst.linked
  refine ⟨fun id => ?_, fun stmt => ?_, fun body => ?_, fun stmts => ?_⟩
  · have h := evaluate_evaluated hp id st hlinked
    refine ⟨⟨_, _, []⟩, ⟨h.rule, rfl⟩, ?_, rfl, h.linked.eq_ofStack, ?_⟩
    · rintro ⟨res, scopes, lines⟩ ⟨hrule, rfl⟩
      obtain ⟨rfl, rfl⟩ := hrule.unique h.rule
      rfl
    · rw [h.output]
      exact Output.receives_writeAll st.output []
  · obtain ⟨lines, h⟩ := execute_executed hp stmt st hlinked
    exact h.realizes fun _ _ => Executes.unique _
  · obtain ⟨lines, h⟩ := executeAll_executed hp body st.enterBlock hlinked.push
    exact (h.closeScope hlinked).realizes fun _ _ => Executes.unique _
  · obtain ⟨lines, h⟩ := interpret_executed hp stmts st hlinked
    exact h.realizes fun _ _ => Interprets.unique

/-- The shared assignment of the small arena is made for the left operand, and again for the right
one. -/
theorem evaluates_tangled {s s' : ScopeStack} (hfirst : s.assign? ⟨1⟩ (.boolean true) = some s')
    (hsecond : s'.assign? ⟨1⟩ (.boolean true) = some s') :
    Evaluates tangled.names.text (tangled.arena.tree ⟨0⟩) s (.ok (.boolean true)) s' := by
  have hleft : Evaluates tangled.names.text (tangled.arena.tree ⟨2⟩) s (.ok (.boolean true)) s' :=
    .assign (.literal (.boolean true) s) hfirst
  have hright : Evaluates tangled.names.text (tangled.arena.tree ⟨2⟩) s' (.ok (.boolean true)) s' :=
    .assign (.literal (.boolean true) s') hsecond
  exact .binary hleft hright (.same (.boolean true))

/-- The statements `var x; { print (x = true) == (x = true); }` and one that refers to nothing. -/
theorem interprets_tangled :
    Interprets tangled.names.text
      (tangled.arena.stmtTrees [.declare ⟨1⟩ none 1, .block [.print ⟨0⟩ 2] 2, .expression ⟨3⟩ 3])
      [∅]
      ⟨.error (.missing 5 ⟨9⟩), [(∅ : Bindings).insert ⟨1⟩ (.boolean true)],
        [.printed "true"]⟩ := by
  have hvalue := evaluates_tangled (s := [∅, (∅ : Bindings).insert ⟨1⟩ .nil]) rfl rfl
  have hblock := Executes.block (.cons (.print hvalue .yes) (.nil _))
  exact .missing (.cons (.declareNil ⟨1⟩ [∅])
    (.cons hblock (.halt (.expressionHalt (.grouping (.missing 5 ⟨9⟩ _))))))

/-- A value that was assigned twice on the way, the lines and scopes of a program that ends at a
missing expression, and the report of one that ends with an error. -/
theorem runs_realize_trees_tangled :
    let st := State.new .emptyBuffer
    let declared := st.define ⟨1⟩ .nil
    let stmts : List Stmt := [.declare ⟨1⟩ none 1, .block [.print ⟨0⟩ 2] 2, .expression ⟨3⟩ 3]
    let unbound : EvalError := ⟨.undefinedVariable "x", "Undefined variable 'x'.", some 2⟩
    let assigned : Env := .ofStack [(∅ : Bindings).insert ⟨1⟩ (.boolean true)]
    tangled.arena.Acyclic ∧ st.env.Reachable ∧ declared.env.Reachable ∧
      ((tangled.evaluate ⟨0⟩ declared).result = .ok (.boolean true) ∧
        (tangled.evaluate ⟨0⟩ declared).state.env = assigned ∧
        st.output.Receives ⟨"", ""⟩ (tangled.evaluate ⟨0⟩ declared).state.output) ∧
      ((tangled.interpret stmts st).result = .error (.missing 5 ⟨9⟩) ∧
        (tangled.interpret stmts st).state.env = assigned ∧
        st.output.Receives ⟨"true\n", ""⟩ (tangled.interpret stmts st).state.output) ∧
      ((tangled.interpret [.print ⟨1⟩ 1] st).result = .error (.error unbound) ∧
        (tangled.interpret [.print ⟨1⟩ 1] st).state.env = .ofStack [∅] ∧
        st.output.Receives ⟨"", "Undefined variable 'x'. [line 2]\n"⟩
          (tangled.interpret [.print ⟨1⟩ 1] st).state.output) := by
  intro st declared stmts unbound assigned
  have hreach : st.env.Reachable := Env.reachable_new
  have hdeclared : declared.env.Reachable := ⟨[.define ⟨1⟩ .nil], rfl⟩
  have hfresh := runs_realize_trees tangled Arena.acyclic_tangled st hreach
  have hvalue := (runs_realize_trees tangled Arena.acyclic_tangled declared hdeclared).1 ⟨0⟩
  -- Each ending is derived by the rules, and the run has no other.
  have hreport : Interprets tangled.names.text (tangled.arena.stmtTrees [.print ⟨1⟩ 1]) [∅]
      ⟨.error (.error unbound), [∅], [.reported "Undefined variable 'x'. [line 2]"]⟩ :=
    .error (.halt (.printHalt (.readUnbound rfl)))
  exact ⟨Arena.acyclic_tangled, hreach, hdeclared,
    hvalue.ending (e := ⟨_, _, []⟩) ⟨evaluates_tangled rfl rfl, rfl⟩,
    (hfresh.2.2.2 stmts).ending interprets_tangled, (hfresh.2.2.2 _).ending hreport⟩

end Program

end ScriptCore
