/-
What a program sees of its environment.

A program cannot tell in which scope a variable lives, nor how many scopes there are. It sees the
values of the names it mentions, by looking them up, and nothing else. Two environments of any
shape that agree on these names lead to the same run.

The two runs are compared act by act (`perform_matches`). Scopes that were there at the start are
compared by lookup alone, since an assignment may resolve at different depths in them; the scopes
of blocks that the runs have opened correspond one to one, and are compared one by one
(`ScopeStack.AgreeOn`). A block that is closed then uncovers scopes that still agree.
-/
import ScriptCore.Proofs.Frame
import ScriptCore.Proofs.Leaves

set_option autoImplicit false

namespace ScriptCore

/-! ## Lookup after an operation -/

namespace ScopeStack

variable {stack stack' : ScopeStack} {name : Name} {value : Value}

theorem lookup?_cons (own : Bindings) (rest : ScopeStack) (name : Name) :
    lookup? name (own :: rest) = own[name]?.or (rest.lookup? name) := by
  unfold lookup?
  rw [List.findSome?_cons]
  rcases own[name]? with _ | v
  · rfl
  · rfl

theorem getElem?_insert (own : Bindings) (name other : Name) (value : Value) :
    (own.insert name value)[other]? = if name = other then some value else own[other]? := by
  simp only [Std.TreeMap.getElem?_insert, Std.LawfulEqCmp.compare_eq_iff_eq]

theorem lookup?_define (hstack : stack ≠ []) (name other : Name) (value : Value) :
    (stack.define name value).lookup? other =
      if name = other then some value else stack.lookup? other := by
  rcases stack with _ | ⟨own, rest⟩
  · exact absurd rfl hstack
  · rw [define, lookup?_cons, getElem?_insert, lookup?_cons]
    by_cases hother : name = other
    · rw [if_pos hother, if_pos hother]
      rfl
    · rw [if_neg hother, if_neg hother]

/-- What an assignment is seen to do does not depend on where it is done. -/
theorem lookup?_assign? (h : stack.assign? name value = some stack') (other : Name) :
    stack'.lookup? other = if name = other then some value else stack.lookup? other := by
  induction stack generalizing stack' with
  | nil => cases h
  | cons own rest ih =>
    rw [assign?] at h
    by_cases hin : own.contains name = true
    · rw [if_pos hin] at h
      obtain rfl := Option.some.inj h
      have hcons : own :: rest ≠ [] := List.cons_ne_nil own rest
      exact lookup?_define hcons name other value
    · rw [if_neg hin] at h
      obtain ⟨rest', hrest, rfl⟩ := Option.map_eq_some_iff.1 h
      rw [lookup?_cons, lookup?_cons, ih hrest]
      by_cases hother : name = other
      · -- The scope that was passed over does not have the name.
        subst hother
        have hnone : own[name]? = none :=
          Std.TreeMap.getElem?_eq_none_of_contains_eq_false (Bool.eq_false_iff.2 hin)
        rw [if_pos rfl, if_pos rfl, hnone]
        rfl
      · rw [if_neg hother, if_neg hother]

theorem isSome_assign? (stack : ScopeStack) (name : Name) (value : Value) :
    (stack.assign? name value).isSome = (stack.lookup? name).isSome := by
  induction stack with
  | nil => rfl
  | cons own rest ih =>
    rw [assign?, lookup?_cons, ← Std.TreeMap.isSome_getElem?_eq_contains]
    rcases own[name]? with _ | v
    · simpa using ih
    · rfl

theorem ne_nil_of_assign? (h : stack.assign? name value = some stack') : stack' ≠ [] := by
  rcases stack with _ | ⟨own, rest⟩
  · cases h
  · rw [assign?] at h
    split at h
    · cases h
      exact List.cons_ne_nil _ _
    · obtain ⟨rest', -, rfl⟩ := Option.map_eq_some_iff.1 h
      exact List.cons_ne_nil _ _

/-! ## Agreement -/

/-- With `n` scopes opened on each side, these agree one by one on the given names, and what lies
around them agrees on lookups. -/
inductive AgreeOn (N : Name → Prop) : Nat → ScopeStack → ScopeStack → Prop where
  | around {s s' : ScopeStack} : s ≠ [] → s' ≠ [] →
      (∀ name, N name → s.lookup? name = s'.lookup? name) → AgreeOn N 0 s s'
  | opened {n : Nat} {own own' : Bindings} {s s' : ScopeStack} :
      (∀ name, N name → own[name]? = own'[name]?) → AgreeOn N n s s' →
      AgreeOn N (n + 1) (own :: s) (own' :: s')

namespace AgreeOn

variable {N : Name → Prop} {n : Nat} {s s' : ScopeStack}

theorem ne_nil (h : AgreeOn N n s s') : s ≠ [] ∧ s' ≠ [] := by
  rcases h with ⟨hs, hs', -⟩ | -
  · exact ⟨hs, hs'⟩
  · exact ⟨List.cons_ne_nil _ _, List.cons_ne_nil _ _⟩

theorem lookup?_eq (h : AgreeOn N n s s') {name : Name} (hname : N name) :
    s.lookup? name = s'.lookup? name := by
  induction h with
  | around _ _ hlookup => exact hlookup name hname
  | opened hown _ ih => rw [lookup?_cons, lookup?_cons, hown name hname, ih]

theorem push (h : AgreeOn N n s s') : AgreeOn N (n + 1) (∅ :: s) (∅ :: s') :=
  .opened (fun _ _ => rfl) h

theorem pop (h : AgreeOn N (n + 1) s s') : AgreeOn N n s.pop s'.pop := by
  rcases h with - | @⟨_, own, own', rest, rest', -, hrest⟩
  obtain ⟨hne, hne'⟩ := hrest.ne_nil
  obtain ⟨next, tail, rfl⟩ := List.exists_cons_of_ne_nil hne
  obtain ⟨next', tail', rfl⟩ := List.exists_cons_of_ne_nil hne'
  exact hrest

theorem define (h : AgreeOn N n s s') (name : Name) (value : Value) :
    AgreeOn N n (s.define name value) (s'.define name value) := by
  rcases h with ⟨hs, hs', hlookup⟩ | ⟨hown, hrest⟩
  · refine .around ?_ ?_ fun other hother => ?_
    · obtain ⟨own, rest, rfl⟩ := List.exists_cons_of_ne_nil hs
      exact List.cons_ne_nil _ _
    · obtain ⟨own, rest, rfl⟩ := List.exists_cons_of_ne_nil hs'
      exact List.cons_ne_nil _ _
    · rw [lookup?_define hs, lookup?_define hs', hlookup other hother]
  · refine .opened (fun other hother => ?_) hrest
    rw [getElem?_insert, getElem?_insert, hown other hother]

/-- An assignment to a name on which the stacks agree succeeds in both or in none, and they agree
again. -/
theorem assign? (h : AgreeOn N n s s') {name : Name} (hname : N name) (value : Value) :
    s.assign? name value = none ∧ s'.assign? name value = none ∨
      ∃ t t', s.assign? name value = some t ∧ s'.assign? name value = some t' ∧
        AgreeOn N n t t' := by
  induction h with
  | @around s s' hs hs' hlookup =>
    have hsome : (s.assign? name value).isSome = (s'.assign? name value).isSome := by
      rw [isSome_assign?, isSome_assign?, hlookup name hname]
    rcases ht : s.assign? name value with _ | t <;>
      rcases ht' : s'.assign? name value with _ | t' <;> rw [ht, ht'] at hsome
    · exact .inl ⟨rfl, rfl⟩
    · cases hsome
    · cases hsome
    · refine .inr ⟨t, t', rfl, rfl, .around (ne_nil_of_assign? ht) (ne_nil_of_assign? ht') ?_⟩
      intro other hother
      rw [lookup?_assign? ht, lookup?_assign? ht', hlookup other hother]
  | @opened n own own' s s' hown hrest ih =>
    have hin : own.contains name = own'.contains name := by
      rw [← Std.TreeMap.isSome_getElem?_eq_contains, ← Std.TreeMap.isSome_getElem?_eq_contains,
        hown name hname]
    rw [ScopeStack.assign?, ScopeStack.assign?, ← hin]
    by_cases hmem : own.contains name = true
    · rw [if_pos hmem, if_pos hmem]
      refine .inr ⟨_, _, rfl, rfl, .opened (fun other hother => ?_) hrest⟩
      rw [getElem?_insert, getElem?_insert, hown other hother]
    · rw [if_neg hmem, if_neg hmem]
      obtain ⟨hnone, hnone'⟩ | ⟨t, t', ht, ht', hagree⟩ := ih
      · rw [hnone, hnone']
        exact .inl ⟨rfl, rfl⟩
      · rw [ht, ht']
        exact .inr ⟨_, _, rfl, rfl, .opened hown hagree⟩

end AgreeOn

end ScopeStack

/-! ## Two runs -/

/-- Two states that runs from two others have come to, with `n` blocks open: they agree on the
names, and the runs have written the same lines. -/
structure State.Matches (N : Name → Prop) (start start' : State) (n : Nat) (st st' : State) :
    Prop where
  linked : st.env.Linked
  linked' : st'.env.Linked
  agree : ScopeStack.AgreeOn N n st.env.stack st'.env.stack
  lines : ∃ lines, st.output = start.output.writeAll lines ∧
    st'.output = start'.output.writeAll lines

/-- Two outcomes that are the same, in states that match; `n` blocks were open before. -/
inductive Outcome.Matches (N : Name → Prop) (start start' : State) (n : Nat) :
    Outcome Pending → Outcome Pending → Prop where
  | ok {w : Pending} {st st' : State} : State.Matches N start start' w.blocks st st' →
      Matches N start start' n ⟨.ok w, st⟩ ⟨.ok w, st'⟩
  | error {halt : Halt} {st st' : State} : State.Matches N start start' n st st' →
      Matches N start start' n ⟨.error halt, st⟩ ⟨.error halt, st'⟩

/-- The name that the act reads or writes. -/
def Act.name? : Act → Option Name
  | read name _ | assign name _ | declare name => some name
  | _ => none

namespace State.Matches

variable {N : Name → Prop} {start start' st st' : State} {n : Nat}

theorem record (h : Matches N start start' n st st') (event event' : Event) :
    Matches N start start' n (st.record event) (st'.record event') :=
  ⟨h.linked, h.linked', h.agree, h.lines⟩

theorem lookup?_eq (h : Matches N start start' n st st') {name : Name} (hname : N name) :
    st.env.lookup? name = st'.env.lookup? name := by
  rw [Env.lookup?_eq_stack h.linked, Env.lookup?_eq_stack h.linked', h.agree.lookup?_eq hname]

theorem writeLine (h : Matches N start start' n st st') (line : Line) :
    Matches N start start' n { st with output := st.output.writeLine line }
      { st' with output := st'.output.writeLine line } := by
  obtain ⟨lines, hout, hout'⟩ := h.lines
  refine ⟨h.linked, h.linked', h.agree, lines ++ [line], ?_, ?_⟩
  · rw [Output.writeAll_append, ← hout]
    rfl
  · rw [Output.writeAll_append, ← hout']
    rfl

theorem define (h : Matches N start start' n st st') (name : Name) (value : Value) :
    Matches N start start' n (st.define name value) (st'.define name value) := by
  refine ⟨h.linked.define name value, h.linked'.define name value, ?_, h.lines⟩
  rw [env_define, env_define, Env.stack_define h.linked, Env.stack_define h.linked']
  exact h.agree.define name value

theorem enterBlock (h : Matches N start start' n st st') :
    Matches N start start' (n + 1) st.enterBlock st'.enterBlock := by
  refine ⟨h.linked.push, h.linked'.push, ?_, h.lines⟩
  rw [env_enterBlock, env_enterBlock, Env.stack_push, Env.stack_push]
  exact h.agree.push

theorem closeScope (h : Matches N start start' (n + 1) st st') :
    Matches N start start' n st.closeScope st'.closeScope := by
  refine ⟨h.linked.pop, h.linked'.pop, ?_, h.lines⟩
  rw [env_closeScope, env_closeScope, Env.stack_pop h.linked, Env.stack_pop h.linked']
  exact h.agree.pop

theorem closeScopes (h : Matches N start start' n st st') :
    Matches N start start' 0 (st.closeScopes n) (st'.closeScopes n) := by
  induction n generalizing st st' with
  | zero => exact h
  | succ n ih => exact ih h.closeScope

end State.Matches

/-! An assignment, by what it does to the stack. -/

section Assign

variable {env : Env} {name : Name} {value : Value}

theorem Env.assign_eq_error (h : env.Linked) (hnone : env.stack.assign? name value = none)
    (line : Nat) : env.assign name value line = .error ⟨name, line⟩ := by
  have hassign := assign_eq_stack h name value line
  rw [hnone] at hassign
  rcases ha : env.assign name value line with unbound | env' <;> rw [ha] at hassign <;>
    cases hassign
  rfl

theorem Env.exists_assign_eq_ok (h : env.Linked) {t : ScopeStack}
    (hsome : env.stack.assign? name value = some t) (line : Nat) :
    ∃ env', env.assign name value line = .ok env' ∧ env'.Linked ∧ env'.stack = t := by
  have hassign := assign_eq_stack h name value line
  rw [hsome] at hassign
  rcases ha : env.assign name value line with unbound | env' <;> rw [ha] at hassign <;>
    cases hassign
  exact ⟨env', rfl, h.assign ha, rfl⟩

end Assign

namespace Program

variable {p : Program} {N : Name → Prop} {start start' st st' : State}

/-- **One act.** On states that agree on the name it is about, an act does the same and leads to
states that agree. -/
theorem perform_matches {act : Act} {w : Pending} (h : State.Matches N start start' w.blocks st st')
    (hname : ∀ name, act.name? = some name → N name) (hleave : act = .leave → 0 < w.blocks) :
    Outcome.Matches N start start' w.blocks (p.perform act w st) (p.perform act w st') := by
  cases act with
  | literal | discard => exact .ok h
  | missing => exact .error h
  | print => exact .ok (h.writeLine (.printed _))
  | declare name => exact .ok (h.define name _)
  | enter => exact .ok h.enterBlock
  | leave =>
    obtain ⟨values, blocks⟩ := w
    have hopen : 0 < blocks := hleave rfl
    obtain ⟨n, rfl⟩ : ∃ n, blocks = n + 1 := ⟨blocks - 1, by omega⟩
    exact .ok h.closeScope
  | unary op line =>
    rw [perform, perform, State.applyUnary, State.applyUnary]
    rcases op.apply w.top with fault | v
    · exact .error (h.record _ _)
    · exact .ok h
  | binary op line =>
    rw [perform, perform, State.applyBinary, State.applyBinary]
    rcases op.apply w.drop.top w.top with fault | v
    · exact .error (h.record _ _)
    · exact .ok h
  | read name line =>
    rw [perform, perform, readName, readName, Env.get, Env.get, h.lookup?_eq (hname name rfl)]
    rcases st'.env.lookup? name with _ | v
    · exact .error h
    · exact .ok h
  | assign name line =>
    rw [perform, perform, assignName, assignName]
    obtain ⟨hnone, hnone'⟩ | ⟨t, t', ht, ht', hagree⟩ := h.agree.assign? (hname name rfl) w.top
    · rw [Env.assign_eq_error h.linked hnone, Env.assign_eq_error h.linked' hnone']
      exact .error h
    · -- The two assignments may write to scopes of different depth.
      obtain ⟨env, ha, hl, rfl⟩ := Env.exists_assign_eq_ok h.linked ht line
      obtain ⟨env', ha', hl', rfl⟩ := Env.exists_assign_eq_ok h.linked' ht' line
      rw [ha, ha']
      exact .ok ⟨hl, hl', hagree, h.lines⟩

/-- **A schedule.** The induction is on the acts; the invariant is that the states match, with as
many scopes opened on both sides as blocks are open. -/
theorem performAll_matches {acts : List Act} {w : Pending} (hbalanced : Act.Balanced acts w.blocks)
    (hnames : ∀ act ∈ acts, ∀ name, act.name? = some name → N name)
    (h : State.Matches N start start' w.blocks st st') :
    (p.performAll acts w st).result = (p.performAll acts w st').result ∧
      State.Matches N start start' 0 (p.performAll acts w st).state
        (p.performAll acts w st').state := by
  induction acts generalizing w st st' with
  | nil =>
    -- A balanced schedule ends with no block open.
    have hblocks : w.blocks = 0 := hbalanced
    rw [hblocks] at h
    exact ⟨rfl, h⟩
  | cons act rest ih =>
    obtain ⟨hleave, hrest⟩ := hbalanced
    obtain ⟨hact, hnames⟩ := List.forall_mem_cons.1 hnames
    have hmatch := perform_matches (p := p) h hact hleave
    rw [performAll, performAll]
    rcases ho : p.perform act w st with ⟨halt | w', next⟩ <;>
      rcases ho' : p.perform act w st' with ⟨halt' | w'', next'⟩ <;>
      rw [ho, ho'] at hmatch <;> cases hmatch
    · next hnext => exact ⟨rfl, hnext.closeScopes⟩
    · next hnext =>
      obtain ⟨hblocks, -⟩ := perform_ok ho
      rw [← hblocks] at hrest
      exact ih hrest hnames hnext

end Program

/-! ## The names a program mentions -/

/-- The variable that the expression reads or assigns itself. -/
def Form.name? : Form → Option Name
  | read name | assign name _ => some name
  | _ => none

namespace Program

/-- A node below the root reads or assigns the name. -/
def ExprMentions (p : Program) (root : NodeId) (name : Name) : Prop :=
  ∃ id node, Relation.ReflTransGen p.arena.Operand id root ∧ p.arena.get? id = some node ∧
    node.form.name? = some name

/-- The leaf declares the name, or its expression mentions it. -/
def LeafMentions (p : Program) (leaf : Stmt) (name : Name) : Prop :=
  name ∈ leaf.declared ∨ ∃ root, leaf.root? = some root ∧ p.ExprMentions root name

/-- The name occurs in the statements or in a node that can be reached from them. -/
def Mentions (p : Program) (stmts : List Stmt) (name : Name) : Prop :=
  ∃ leaf ∈ Stmt.leavesAll stmts, p.LeafMentions leaf name

variable {p : Program}

theorem ExprMentions.of_operand {child id : NodeId} {name : Name} (h : p.ExprMentions child name)
    (hchild : p.arena.Operand child id) : p.ExprMentions id name := by
  obtain ⟨found, node, hbelow, hget, hname⟩ := h
  exact ⟨found, node, hbelow.tail hchild, hget, hname⟩

/-- The acts of an expression are about names that it mentions. -/
theorem exprMentions_of_mem (hp : p.arena.Acyclic) {id : NodeId} {act : Act} {name : Name}
    (hmem : act ∈ p.exprSchedule id) (hname : act.name? = some name) : p.ExprMentions id name := by
  induction id using hp.induct with
  | missing id hget =>
    rw [exprSchedule, Arena.tree_eq hp, hget] at hmem
    obtain rfl := List.mem_singleton.1 hmem
    cases hname
  | node id form line hget ih =>
    have hoperand : ∀ child ∈ form.children, act ∈ p.exprSchedule child → p.ExprMentions id name :=
      fun child hchild hact => (ih child hchild hact).of_operand ⟨_, hget, hchild⟩
    have hown : form.name? = some name → p.ExprMentions id name :=
      fun hform => ⟨id, _, .refl, hget, hform⟩
    rw [exprSchedule, Arena.tree_eq hp, hget] at hmem
    cases form with
    | literal value =>
      obtain rfl := List.mem_singleton.1 hmem
      cases hname
    | grouping inner => exact hoperand inner (by simp) hmem
    | unary op operand =>
      rcases List.mem_append.1 hmem with hmem | hmem
      · exact hoperand operand (by simp) hmem
      · obtain rfl := List.mem_singleton.1 hmem
        cases hname
    | binary op left right =>
      rcases List.mem_append.1 hmem with hmem | hmem
      · exact hoperand left (by simp) hmem
      · rcases List.mem_append.1 hmem with hmem | hmem
        · exact hoperand right (by simp) hmem
        · obtain rfl := List.mem_singleton.1 hmem
          cases hname
    | read name' =>
      obtain rfl := List.mem_singleton.1 hmem
      exact hown hname
    | assign name' value =>
      rcases List.mem_append.1 hmem with hmem | hmem
      · exact hoperand value (by simp) hmem
      · obtain rfl := List.mem_singleton.1 hmem
        exact hown hname

/-- A leaf that ends with an act of its own mentions what the acts are about. -/
theorem leafMentions_of_mem (hp : p.arena.Acyclic) {leaf : Stmt} {root : NodeId}
    (hroot : leaf.root? = some root) {last act : Act} {name : Name}
    (hlast : last.name? = some name → name ∈ leaf.declared)
    (hmem : act ∈ p.exprSchedule root ++ [last]) (hname : act.name? = some name) :
    p.LeafMentions leaf name := by
  rcases List.mem_append.1 hmem with hmem | hmem
  · exact .inr ⟨root, hroot, exprMentions_of_mem hp hmem hname⟩
  · obtain rfl := List.mem_singleton.1 hmem
    exact .inl (hlast hname)

mutual

theorem mentions_of_mem_stmt (hp : p.arena.Acyclic) {act : Act} {name : Name}
    (hname : act.name? = some name) : (stmt : Stmt) → act ∈ p.stmtSchedule stmt →
    ∃ leaf ∈ stmt.leaves, p.LeafMentions leaf name
  | .expression id line, hmem => by
    rw [stmtSchedule, Arena.stmtTree, StmtTree.acts] at hmem
    rw [Stmt.leaves]
    exact ⟨_, List.mem_singleton.2 rfl, leafMentions_of_mem hp rfl (by nofun) hmem hname⟩
  | .print id line, hmem => by
    rw [stmtSchedule, Arena.stmtTree, StmtTree.acts] at hmem
    rw [Stmt.leaves]
    exact ⟨_, List.mem_singleton.2 rfl, leafMentions_of_mem hp rfl (by nofun) hmem hname⟩
  | .declare declared none line, hmem => by
    rw [stmtSchedule, Arena.stmtTree, Option.map_none, StmtTree.acts] at hmem
    rw [Stmt.leaves]
    refine ⟨_, List.mem_singleton.2 rfl, .inl ?_⟩
    rcases List.mem_pair.1 hmem with rfl | rfl
    · cases hname
    · cases hname
      exact List.mem_singleton.2 rfl
  | .declare declared (some id) line, hmem => by
    rw [stmtSchedule, Arena.stmtTree, Option.map_some, StmtTree.acts] at hmem
    rw [Stmt.leaves]
    refine ⟨_, List.mem_singleton.2 rfl, leafMentions_of_mem hp rfl ?_ hmem hname⟩
    intro hdeclare
    cases hdeclare
    exact List.mem_singleton.2 rfl
  | .block body line, hmem => by
    rw [stmtSchedule_block, blockSchedule] at hmem
    rw [Stmt.leaves]
    -- Opening and closing are about no name.
    rcases List.mem_cons.1 hmem with rfl | hmem
    · cases hname
    · rcases List.mem_append.1 hmem with hmem | hmem
      · exact mentions_of_mem hp hname body hmem
      · obtain rfl := List.mem_singleton.1 hmem
        cases hname

/-- The acts of a program are about names that it mentions. -/
theorem mentions_of_mem (hp : p.arena.Acyclic) {act : Act} {name : Name}
    (hname : act.name? = some name) : (stmts : List Stmt) → act ∈ p.schedule stmts →
    p.Mentions stmts name
  | [], hmem => nomatch hmem
  | stmt :: rest, hmem => by
    rw [schedule_cons] at hmem
    rw [Mentions, Stmt.leavesAll]
    rcases List.mem_append.1 hmem with hmem | hmem
    · obtain ⟨leaf, hleaf, hmentions⟩ := mentions_of_mem_stmt hp hname stmt hmem
      exact ⟨leaf, List.mem_append_left _ hleaf, hmentions⟩
    · obtain ⟨leaf, hleaf, hmentions⟩ := mentions_of_mem hp hname rest hmem
      exact ⟨leaf, List.mem_append_right _ hleaf, hmentions⟩

end

end Program

/-! ## The other names -/

namespace Env

variable {env env' : Env} {name : Name}

theorem Kept.lookup?_eq {gained written : List Name} (h : env.Kept gained written env')
    (hname : name ∉ written) : env'.lookup? name = env.lookup? name := by
  have hvalue := fun i => h.value i name hname
  have hresolve : env'.resolve? name = env.resolve? name := by
    rw [resolve?, resolve?, h.depth, h.current]
    exact h.toSameLinks.resolveFrom_eq (fun i => congrArg Option.isSome (hvalue i)) _ _
  rw [lookup?, lookup?, hresolve]
  rcases env.resolve? name with _ | i
  · rfl
  · exact hvalue i

end Env

/-! ## From the outside -/

namespace Outcome

variable {α : Type}

theorem result_forget {o o' : Outcome α} (h : o.result = o'.result) :
    o.forget.result = o'.forget.result := by
  obtain ⟨_ | _, st⟩ := o <;> obtain ⟨_ | _, st'⟩ := o' <;> cases h <;> rfl

theorem state_forget (o : Outcome α) : o.forget.state = o.state := by
  obtain ⟨_ | _, st⟩ := o <;> rfl

end Outcome

namespace Program

variable {p : Program} {N : Name → Prop} {start start' st st' : State}

theorem executeAll_matches (hp : p.arena.Acyclic) {stmts : List Stmt}
    (hnames : ∀ name, p.Mentions stmts name → N name) (h : State.Matches N start start' 0 st st') :
    (p.executeAll stmts st).result = (p.executeAll stmts st').result ∧
      State.Matches N start start' 0 (p.executeAll stmts st).state
        (p.executeAll stmts st').state := by
  have hrun := executeAll_eq_performAll hp stmts
  simp only [Outcome.forget_unit] at hrun
  have hacts : ∀ act ∈ p.schedule stmts, ∀ name, act.name? = some name → N name :=
    fun act hmem name hname => hnames name (mentions_of_mem hp hname stmts hmem)
  obtain ⟨hresult, hstate⟩ := performAll_matches (w := .empty) (p.balanced_schedule stmts) hacts h
  rw [hrun, hrun, Outcome.state_forget, Outcome.state_forget]
  exact ⟨Outcome.result_forget hresult, hstate⟩

theorem interpret_matches (hp : p.arena.Acyclic) {stmts : List Stmt}
    (hnames : ∀ name, p.Mentions stmts name → N name) (h : State.Matches N start start' 0 st st') :
    (p.interpret stmts st).result = (p.interpret stmts st').result ∧
      State.Matches N start start' 0 (p.interpret stmts st).state
        (p.interpret stmts st').state := by
  obtain ⟨hresult, hstate⟩ := executeAll_matches hp hnames
    (h.record (.started stmts.length) (.started stmts.length))
  rw [result_interpret, result_interpret]
  refine ⟨hresult, ?_⟩
  rw [interpret, interpret]
  simp only [hresult]
  split
  · exact (hstate.record _ _).writeLine (.reported _)
  · exact hstate

/-- A name that the program does not mention is looked up as before. -/
theorem lookup?_interpret (hp : p.arena.Acyclic) {stmts : List Stmt} (hst : st.env.Linked)
    {name : Name} (hname : ¬ p.Mentions stmts name) :
    (p.interpret stmts st).state.env.lookup? name = st.env.lookup? name := by
  have hlinked : (st.record (.started stmts.length)).env.Linked := hst
  have hkept := performAll_kept (p := p) (p.balanced_schedule stmts) hlinked
  have hrun := executeAll_eq_performAll hp stmts (st.record (.started stmts.length))
  rw [env_interpret, Outcome.state_eq_of_forget hrun]
  refine hkept.lookup?_eq fun hwritten => hname ?_
  -- What a run writes it mentions.
  obtain ⟨act, hact, htarget⟩ := List.mem_filterMap.1 hwritten
  have hsame : act.name? = some name := by
    cases act <;> first | exact htarget | cases htarget
  exact mentions_of_mem hp hsame stmts (List.mem_of_mem_take hact)

/-- **A program sees what it mentions.** Let two environments of any shape agree when the names that
a program mentions are looked up. In an arena without cycles, the program then ends in the same way
and writes the same lines from both; the environments it leaves agree again on these names, and on
all other names each of them is as before. -/
theorem interpret_sees_mentioned (p : Program) (hp : p.arena.Acyclic) (stmts : List Stmt)
    (st st' : State) (hst : st.env.Reachable) (hst' : st'.env.Reachable)
    (hagree : ∀ name, p.Mentions stmts name → st.env.lookup? name = st'.env.lookup? name) :
    (p.interpret stmts st).result = (p.interpret stmts st').result ∧
      (∃ lines, (p.interpret stmts st).state.output = st.output.writeAll lines ∧
        (p.interpret stmts st').state.output = st'.output.writeAll lines) ∧
      (∀ name, p.Mentions stmts name →
        (p.interpret stmts st).state.env.lookup? name =
          (p.interpret stmts st').state.env.lookup? name) ∧
      ∀ name, ¬ p.Mentions stmts name →
        (p.interpret stmts st).state.env.lookup? name = st.env.lookup? name ∧
          (p.interpret stmts st').state.env.lookup? name = st'.env.lookup? name := by
  have hl : st.env.Linked := hst.linked
  have hl' : st'.env.Linked := hst'.linked
  have hstart : State.Matches (p.Mentions stmts) st st' 0 st st' := by
    refine ⟨hl, hl', .around (Env.stack_ne_nil hl) (Env.stack_ne_nil hl') ?_, [], rfl, rfl⟩
    intro name hname
    rw [← Env.lookup?_eq_stack hl, ← Env.lookup?_eq_stack hl', hagree name hname]
  obtain ⟨hresult, hend⟩ := interpret_matches hp (fun _ hname => hname) hstart
  refine ⟨hresult, hend.lines, fun name hname => hend.lookup?_eq hname, fun name hname => ?_⟩
  exact ⟨lookup?_interpret hp hl hname, lookup?_interpret hp hl' hname⟩

/-- One scope, with `x`. -/
def shallow : State := ⟨Env.new.define ⟨1⟩ (.boolean false), .new .emptyBuffer, #[]⟩

/-- Three scopes, with `x` in two of them and another name around it. -/
def deep : State :=
  ⟨(((Env.new.define ⟨1⟩ .nil).define ⟨2⟩ .nil).push.define ⟨1⟩ (.boolean false)).push,
    .new .emptyBuffer, #[]⟩

/-- In a block, `x` is assigned twice and then shadowed; behind the block it is read. -/
def shadowing : List Stmt := [.block [.print ⟨0⟩ 1, .declare ⟨1⟩ none 2] 1, .print ⟨1⟩ 3]

theorem eq_of_mentions_shadowing {name : Name} (h : tangled.Mentions shadowing name) :
    name = ⟨1⟩ := by
  have hforms : ∀ node ∈ Arena.tangled.nodes,
      node.form.name? = none ∨ node.form.name? = some ⟨1⟩ := by decide
  have hdeclared : ∀ leaf ∈ Stmt.leavesAll shadowing,
      leaf.declared = [] ∨ leaf.declared = [⟨1⟩] := by decide
  obtain ⟨leaf, hleaf, hmem | ⟨root, -, id, node, -, hget, hname⟩⟩ := h
  · rcases hdeclared leaf hleaf with hnone | hone
    · rw [hnone] at hmem
      cases hmem
    · rw [hone] at hmem
      exact List.mem_singleton.1 hmem
  · rcases hforms node (Array.mem_of_getElem? hget) with hnone | hone
    · rw [hnone] at hname
      cases hname
    · rw [hone] at hname
      exact (Option.some.inj hname).symm

/-- `x` is assigned at the root in one run and one scope further in in the other. -/
theorem interpret_sees_mentioned_shadowing :
    tangled.arena.Acyclic ∧ shallow.env.Reachable ∧ deep.env.Reachable ∧
      (∀ name, tangled.Mentions shadowing name →
        shallow.env.lookup? name = deep.env.lookup? name) ∧
      (tangled.interpret shadowing shallow).result = (tangled.interpret shadowing deep).result ∧
      (tangled.interpret shadowing deep).state.env.lookup? ⟨2⟩ = some .nil := by
  have hshallow : shallow.env.Reachable := ⟨[.define ⟨1⟩ (.boolean false)], rfl⟩
  have hdeep : deep.env.Reachable :=
    ⟨[.define ⟨1⟩ .nil, .define ⟨2⟩ .nil, .push, .define ⟨1⟩ (.boolean false), .push], rfl⟩
  have hagree : ∀ name, tangled.Mentions shadowing name →
      shallow.env.lookup? name = deep.env.lookup? name := by
    intro name hname
    obtain rfl := eq_of_mentions_shadowing hname
    decide +kernel
  have hother : ¬ tangled.Mentions shadowing ⟨2⟩ := by
    intro hname
    have hone := eq_of_mentions_shadowing hname
    cases hone
  obtain ⟨hresult, -, -, hkept⟩ := interpret_sees_mentioned tangled Arena.acyclic_tangled shadowing
    shallow deep hshallow hdeep hagree
  refine ⟨Arena.acyclic_tangled, hshallow, hdeep, hagree, hresult, ?_⟩
  rw [(hkept ⟨2⟩ hother).2]
  decide +kernel

end Program

end ScriptCore
