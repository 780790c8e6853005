/-
Blocks inside blocks.

A block opens a scope that binds nothing yet, and nobody inside can tell. A name is looked up and
assigned through an empty scope as if it were not there, so statements run in one block as they do
in a block in a block, however deep. They also run as they do without any block, up to the scopes
they leave: a declaration then overwrites a binding of the caller where it would have shadowed it.

The scopes left by blocks are compared by the rules for trees, in which a run is a derivation over a
stack of maps. From a derivation over one stack there is a derivation over the stack with an empty
scope put in below the innermost (`Evaluates.insertEmpty`, `ExecutesAll.insertEmpty`), and it leaves
the scopes that the first one leaves, with the empty one still in its place. What the statements do
without a block is compared by lookups (`Program.executeAll_matches`), since there the scopes that
are left do differ.
-/
import ScriptCore.Proofs.Lookups

set_option autoImplicit false

namespace ScriptCore

/-! ## An empty scope more -/

namespace ScopeStack

/-- The stack with an empty scope below the `k` innermost ones. -/
def insertEmpty (k : Nat) (stack : ScopeStack) : ScopeStack := stack.insertIdx k ∅

@[simp] theorem insertEmpty_zero (stack : ScopeStack) : stack.insertEmpty 0 = ∅ :: stack := rfl

@[simp] theorem insertEmpty_succ_cons (k : Nat) (own : Bindings) (rest : ScopeStack) :
    insertEmpty (k + 1) (own :: rest) = own :: rest.insertEmpty k := rfl

theorem lookup?_empty_cons (name : Name) (stack : ScopeStack) :
    lookup? name (∅ :: stack) = stack.lookup? name := by
  rw [lookup?_cons, Std.TreeMap.getElem?_emptyc, Option.none_or]

/-- A name is looked up past the empty scope. -/
theorem lookup?_insertEmpty (name : Name) (k : Nat) (stack : ScopeStack) :
    (stack.insertEmpty k).lookup? name = stack.lookup? name := by
  induction k generalizing stack with
  | zero => exact lookup?_empty_cons name stack
  | succ k ih =>
    rcases stack with _ | ⟨own, rest⟩
    · rfl
    · rw [insertEmpty_succ_cons, lookup?_cons, lookup?_cons, ih]

/-- So it is assigned, in the scope that has it, and the empty one stays empty. -/
theorem assign?_insertEmpty (name : Name) (value : Value) (k : Nat) (stack : ScopeStack) :
    (stack.insertEmpty k).assign? name value =
      (stack.assign? name value).map (insertEmpty k) := by
  induction k generalizing stack with
  | zero =>
    -- The search passes over the empty scope and puts it back.
    have hempty : (∅ : Bindings).contains name = false := Std.TreeMap.contains_emptyc
    rw [insertEmpty_zero, assign?, hempty]
    rfl
  | succ k ih =>
    rcases stack with _ | ⟨own, rest⟩
    · rfl
    · rw [insertEmpty_succ_cons, assign?, assign?, ih]
      by_cases hown : own.contains name = true
      · rw [if_pos hown, if_pos hown]
        rfl
      · rw [if_neg hown, if_neg hown, Option.map_map, Option.map_map]
        rfl

/-- A declaration is made in the innermost scope, which is not the empty one. -/
theorem define_insertEmpty (name : Name) (value : Value) (k : Nat) (stack : ScopeStack) :
    (stack.insertEmpty (k + 1)).define name value =
      (stack.define name value).insertEmpty (k + 1) := by
  rcases stack with _ | ⟨own, rest⟩
  · rfl
  · rfl

end ScopeStack

/-! ## Derivations with an empty scope more -/

section Rules

variable {text : Name → String}

/-- An expression neither opens nor closes a scope, so the empty one may be the innermost. -/
theorem Evaluates.insertEmpty {t : Tree} {s s' : ScopeStack} {res : Except Halt Value}
    (h : Evaluates text t s res s') (k : Nat) :
    Evaluates text t (s.insertEmpty k) res (s'.insertEmpty k) := by
  induction h with
  | literal value s => exact .literal value _
  | missing size id s => exact .missing size id _
  | grouping _ ih => exact .grouping ih
  | unary _ hrule ih => exact .unary ih hrule
  | unaryHalt _ ih => exact .unaryHalt ih
  | binary _ _ hrule ihl ihr => exact .binary ihl ihr hrule
  | leftHalt _ ih => exact .leftHalt ih
  | rightHalt _ _ ihl ihr => exact .rightHalt ihl ihr
  | read hlookup =>
    apply Evaluates.read
    rw [ScopeStack.lookup?_insertEmpty, hlookup]
  | readUnbound hlookup =>
    apply Evaluates.readUnbound
    rw [ScopeStack.lookup?_insertEmpty, hlookup]
  | assign _ hassign ih =>
    apply Evaluates.assign ih
    rw [ScopeStack.assign?_insertEmpty, hassign, Option.map_some]
  | assignUnbound _ hassign ih =>
    apply Evaluates.assignUnbound ih
    rw [ScopeStack.assign?_insertEmpty, hassign, Option.map_none]
  | assignHalt _ ih => exact .assignHalt ih

mutual

/-- A block inside has its own scope in front of all others, the empty one included. -/
theorem Executes.insertEmpty (k : Nat) : (t : StmtTree) → {s s' : ScopeStack} →
    {res : Except Halt Unit} → {lines : List Line} → Executes text t s ⟨res, s', lines⟩ →
    Executes text t (s.insertEmpty (k + 1)) ⟨res, s'.insertEmpty (k + 1), lines⟩
  | .expression _, _, _, _, _, h => by
    cases h with
    | expression h => exact .expression (h.insertEmpty (k + 1))
    | expressionHalt h => exact .expressionHalt (h.insertEmpty (k + 1))
  | .print _, _, _, _, _, h => by
    cases h with
    | print h hline => exact .print (h.insertEmpty (k + 1)) hline
    | printHalt h => exact .printHalt (h.insertEmpty (k + 1))
  | .declare _ _, _, _, _, _, h => by
    cases h with
    | declareNil =>
      rw [← ScopeStack.define_insertEmpty]
      exact .declareNil _ _
    | declare h =>
      rw [← ScopeStack.define_insertEmpty]
      exact .declare (h.insertEmpty (k + 1))
    | declareHalt h => exact .declareHalt (h.insertEmpty (k + 1))
  | .block body, _, _, _, _, h => by
    -- With the scope of the block in front, the empty one is one further out.
    cases h with
    | block h => exact .block (ExecutesAll.insertEmpty (k + 1) body h)

/-- **Statements run the same with an empty scope below the innermost.** -/
theorem ExecutesAll.insertEmpty (k : Nat) : (ts : List StmtTree) → {s s' : ScopeStack} →
    {res : Except Halt Unit} → {lines : List Line} → ExecutesAll text ts s ⟨res, s', lines⟩ →
    ExecutesAll text ts (s.insertEmpty (k + 1)) ⟨res, s'.insertEmpty (k + 1), lines⟩
  | [], _, _, _, _, h => by
    cases h
    exact .nil _
  | t :: ts, _, _, _, _, h => by
    cases h with
    | cons h hrest =>
      exact .cons (Executes.insertEmpty k t h) (ExecutesAll.insertEmpty k ts hrest)
    | halt h => exact .halt (Executes.insertEmpty k t h)

end

/-- A statement alone ends as it does. -/
theorem ExecutesAll.singleton {t : StmtTree} {s : ScopeStack} {e : Ending Unit}
    (h : Executes text t s e) : ExecutesAll text [t] s e := by
  obtain ⟨halt | _, s', lines⟩ := e
  · exact .halt h
  · rw [← List.append_nil lines]
    exact .cons h (.nil s')

/-- A block may start from an empty scope, since it opens its own in front of it. -/
theorem Executes.over_empty {body : List StmtTree} {s s' : ScopeStack} {res : Except Halt Unit}
    {lines : List Line} (h : Executes text (.block body) s ⟨res, s', lines⟩) :
    Executes text (.block body) (∅ :: s) ⟨res, ∅ :: s', lines⟩ := by
  cases h with
  | block h => exact .block (ExecutesAll.insertEmpty 0 body h)

end Rules

/-! ## Blocks in blocks -/

/-- Statements in blocks inside each other: one at `line`, and one more at each of the lines that
follow, from the outside in. -/
def Stmt.nested (body : List Stmt) (line : Nat) : List Nat → Stmt
  | [] => .block body line
  | next :: rest => .block [nested body next rest] line

/-- **All the blocks together end as one.** The outermost opens an empty scope, the others end over
it as they do without it, by induction, and so the outermost closes it as empty as it was. -/
theorem Executes.nested {text : Name → String} (a : Arena) (body : List Stmt) (line : Nat)
    (lines : List Nat) {s : ScopeStack} {e : Ending Unit}
    (h : Executes text (.block (a.stmtTrees body)) s e) :
    Executes text (a.stmtTree (Stmt.nested body line lines)) s e := by
  induction lines generalizing line s e with
  | nil =>
    rw [Stmt.nested, Arena.stmtTree]
    exact h
  | cons next rest ih =>
    obtain ⟨res, s', written⟩ := e
    have hinner : Executes text (a.stmtTree (Stmt.nested body next rest)) (∅ :: s)
        ⟨res, ∅ :: s', written⟩ := ih next h.over_empty
    rw [Stmt.nested, Arena.stmtTree, Arena.stmtTrees, Arena.stmtTrees]
    exact .block (.singleton hinner)

namespace Program

variable {p : Program}

/-- Blocks in blocks end as a block does, environment included. -/
theorem execute_nested (hp : p.arena.Acyclic) (body : List Stmt) (line : Nat) (lines : List Nat)
    {st : State} (hst : st.env.Linked) :
    let nested := p.execute (.nested body line lines) st
    let block := p.executeBlock body st
    nested.result = block.result ∧ nested.state.env = block.state.env ∧
      nested.state.output = block.state.output := by
  intro nested block
  obtain ⟨written, hnested⟩ := execute_executed hp (.nested body line lines) st hst
  obtain ⟨written', hbody⟩ := executeAll_executed hp body st.enterBlock hst.push
  have hblock := hbody.closeScope hst
  -- Both are endings of the same tree from the same scopes.
  have hsame := Executes.unique _ hnested.rule (hblock.rule.nested p.arena body line lines)
  obtain ⟨hresult, hstack, rfl⟩ := Ending.mk.inj hsame
  refine ⟨hresult, ?_, ?_⟩
  · rw [hnested.linked.eq_ofStack, hstack, ← hblock.linked.eq_ofStack]
    rfl
  · rw [hnested.output, ← hblock.output]
    rfl

/-! ## No block -/

/-- A new scope does not change what is seen, so statements end the same way in it and write the
same lines. -/
theorem executeAll_enterBlock (hp : p.arena.Acyclic) (body : List Stmt) {st : State}
    (hst : st.env.Linked) :
    (p.executeAll body st).result = (p.executeAll body st.enterBlock).result ∧
      ∃ written, (p.executeAll body st).state.output = st.output.writeAll written ∧
        (p.executeAll body st.enterBlock).state.output = st.output.writeAll written := by
  have hstart : State.Matches (p.Mentions body) st st.enterBlock 0 st st.enterBlock := by
    refine ⟨hst, hst.push, ?_, [], rfl, rfl⟩
    rw [State.env_enterBlock, Env.stack_push]
    apply ScopeStack.AgreeOn.around (Env.stack_ne_nil hst) (List.cons_ne_nil _ _)
    intro name _
    rw [ScopeStack.lookup?_empty_cons]
  obtain ⟨hresult, hend⟩ := executeAll_matches hp (fun _ hname => hname) hstart
  exact ⟨hresult, hend.lines⟩

/-- **Nesting is invisible.** In an arena without cycles and from every environment that can be
reached, statements end in the same way and write the same lines whether they run in the current
scope, in a block, or in any number of blocks inside each other; and these leave exactly the
environment that the one block leaves. -/
theorem nesting_is_invisible (p : Program) (hp : p.arena.Acyclic) (body : List Stmt) (line : Nat)
    (lines : List Nat) (st : State) (hst : st.env.Reachable) :
    let direct := p.executeAll body st
    let block := p.executeBlock body st
    let nested := p.execute (.nested body line lines) st
    direct.result = block.result ∧ nested.result = block.result ∧
      (∃ written, direct.state.output = st.output.writeAll written ∧
        block.state.output = st.output.writeAll written ∧
        nested.state.output = st.output.writeAll written) ∧
      nested.state.env = block.state.env := by
  intro direct block nested
  obtain ⟨hresult, written, hdirect, hblock⟩ := executeAll_enterBlock hp body hst.linked
  obtain ⟨hnested, henv, houtput⟩ := execute_nested hp body line lines hst.linked
  -- Closing the scope of the block touches neither its result nor the output.
  exact ⟨hresult, hnested, ⟨written, hdirect, hblock, houtput.trans hblock⟩, henv⟩

/-- The caller's `x` is assigned, redeclared with the value it has, and assigned again; it is
printed before a missing expression ends the run. -/
def redeclaring : List Stmt :=
  [.expression ⟨2⟩ 1, .declare ⟨1⟩ (some ⟨1⟩) 2, .print ⟨0⟩ 3, .declare ⟨1⟩ none 4, .print ⟨1⟩ 5,
    .expression ⟨3⟩ 6]

/-- From the scope that has `x`, the statements overwrite it; in blocks, they shadow it after the
first assignment. Three blocks are as one. -/
theorem nesting_is_invisible_redeclaring :
    let st : State := ⟨Env.new.define ⟨1⟩ .nil, .new .emptyBuffer, #[]⟩
    let direct := tangled.executeAll redeclaring st
    let block := tangled.executeBlock redeclaring st
    let nested := tangled.execute (.block [.block [.block redeclaring 9] 8] 7) st
    tangled.arena.Acyclic ∧ st.env.Reachable ∧
      direct.result = .error (.missing 5 ⟨9⟩) ∧ nested.result = direct.result ∧
      direct.state.output = st.output.writeAll [.printed "true", .printed "nil"] ∧
      nested.state.output = direct.state.output ∧
      direct.state.env.lookup? ⟨1⟩ = some .nil ∧
      nested.state.env.lookup? ⟨1⟩ = some (.boolean true) ∧
      nested.state.env = block.state.env := by
  intro st direct block nested
  have hreach : st.env.Reachable := ⟨[.define ⟨1⟩ .nil], rfl⟩
  obtain ⟨hblock, hnested, ⟨written, hout, -, hout'⟩, henv⟩ :=
    nesting_is_invisible tangled Arena.acyclic_tangled redeclaring 7 [8, 9] st hreach
  refine ⟨Arena.acyclic_tangled, hreach, by decide +kernel, hnested.trans hblock.symm, ?_,
    hout'.trans hout.symm, ?_, ?_, henv⟩
  · decide +kernel
  · decide +kernel
  · decide +kernel

end Program

end ScriptCore
