/-
What a run leaves as it was.

A run may open scopes and must close them, may declare variables where it stands, and may assign
variables anywhere. Everything else in the environment is the caller's: the number of scopes and
their links, the names bound in each of them, and the values of the names the run never wrote. It
stays so on every way out, because the blocks that a failure leaves open are closed behind it.

`Framed` compares the scopes below a position before and after. One act keeps to it
(`Act.Moves.framed`), a schedule does so by induction with the number of open blocks as the other
half of the invariant (`performAll_framed`), and the four ways to run a program are schedules.
-/
import ScriptCore.Proofs.Schedule
import ScriptCore.Proofs.ScopeMachine

set_option autoImplicit false

namespace ScriptCore

namespace Env

/-! ## Bindings by position -/

/-- The scope at the position binds the name itself. -/
def BindsAt (env : Env) (i : Nat) (name : Name) : Prop :=
  ∃ scope, env.scope? i = some scope ∧ scope.binds name = true

/-- The value that the scope at the position gives the name. -/
def valueAt? (env : Env) (i : Nat) (name : Name) : Option Value :=
  (env.scope? i).bind (·.value? name)

theorem bindsAt_iff (env : Env) (i : Nat) (name : Name) :
    env.BindsAt i name ↔ (env.valueAt? i name).isSome = true := by
  unfold BindsAt valueAt?
  rcases env.scope? i with _ | scope
  · simp
  · simp [Scope.binds_eq_isSome]

theorem bindsAt_of_valueAt? {env : Env} {i : Nat} {name : Name} {v : Value}
    (h : env.valueAt? i name = some v) : env.BindsAt i name := by
  rw [bindsAt_iff, h]
  rfl

theorem bindsAt_congr {env env' : Env} {i : Nat} {name : Name}
    (h : env'.valueAt? i name = env.valueAt? i name) :
    env'.BindsAt i name ↔ env.BindsAt i name := by
  rw [bindsAt_iff, bindsAt_iff, h]

theorem valueAt?_of_depth_le {env : Env} {i : Nat} (h : env.depth ≤ i) (name : Name) :
    env.valueAt? i name = none := by
  rw [valueAt?, scope?, Array.getElem?_eq_none h]
  rfl

theorem valueAt?_bindAt {env : Env} {k : Nat} (hk : k < env.depth) (name : Name) (value : Value)
    (i : Nat) (other : Name) :
    (env.bindAt k name value).valueAt? i other =
      if i = k ∧ name = other then some value else env.valueAt? i other := by
  obtain ⟨scope, hs⟩ := scope?_lt hk
  by_cases hi : i = k
  · subst hi
    rw [valueAt?, valueAt?, scope?_bindAt_self hs, hs, Option.bind_some, Option.bind_some,
      Scope.value?_bind]
    simp
  · rw [valueAt?, scope?_bindAt_of_ne (Ne.symm hi), if_neg (fun h => hi h.1)]
    rfl

theorem valueAt?_push (env : Env) (i : Nat) (name : Name) :
    env.push.valueAt? i name = env.valueAt? i name := by
  by_cases hi : i < env.depth
  · rw [valueAt?, valueAt?, scope?, push, Array.getElem?_push_lt hi, scope?,
      Array.getElem?_eq_getElem hi]
  · -- The new scope is empty, and there was none at its position.
    rw [valueAt?_of_depth_le (Nat.le_of_not_lt hi), valueAt?, scope?, push, Array.getElem?_push]
    split
    · exact Scope.value?_empty _ _
    · rw [Array.getElem?_eq_none (Nat.le_of_not_lt hi)]
      rfl

theorem valueAt?_pop {env : Env} (h : env.Linked) {n : Nat} (hdepth : env.depth = n + 2) {i : Nat}
    (hi : i < n + 1) (name : Name) : env.pop.valueAt? i name = env.valueAt? i name := by
  have hscope : env.pop.scope? i = env.scope? i := by
    rw [pop_eq h hdepth, scope?, scope?, ← Array.getElem?_toList, ← Array.getElem?_toList,
      Array.toList_shrink, List.getElem?_take, if_pos hi]
  rw [valueAt?, hscope, valueAt?]

/-- The search for a name stops at a scope that binds it. -/
theorem bindsAt_of_resolveFrom {env : Env} {name : Name} {links i k : Nat}
    (h : env.resolveFrom name links i = some k) : env.BindsAt k name := by
  induction links generalizing i with
  | zero => cases h
  | succ links ih =>
    rw [resolveFrom] at h
    rcases hs : env.scope? i with _ | scope <;> simp only [hs] at h
    · cases h
    · by_cases hb : scope.binds name = true
      · rw [if_pos hb] at h
        cases h
        exact ⟨scope, hs, hb⟩
      · rw [if_neg hb] at h
        split at h
        · cases h
        · exact ih h

/-- An assignment that succeeds writes to one scope, which had the name already. -/
theorem eq_bindAt_of_assign {env env' : Env} {name : Name} {value : Value} {line : Nat}
    (h : env.assign name value line = .ok env') :
    ∃ k, k < env.depth ∧ env.BindsAt k name ∧ env' = env.bindAt k name value := by
  rw [assign] at h
  split at h
  · next k hk =>
    cases h
    have hbinds := bindsAt_of_resolveFrom hk
    refine ⟨k, ?_, hbinds, rfl⟩
    obtain ⟨scope, hs, -⟩ := hbinds
    exact (Array.getElem?_eq_some_iff.1 hs).1
  · cases h

/-- The number of scopes, the current one and the parent of each are the same. -/
structure SameLinks (env env' : Env) : Prop where
  depth : env'.depth = env.depth
  current : env'.current = env.current
  parent : ∀ i, (env'.scope? i).map (·.parent) = (env.scope? i).map (·.parent)

/-- Linked environments differ in their links only if they differ in depth. -/
theorem Linked.sameLinks {env env' : Env} (h : env.Linked) (h' : env'.Linked)
    (hdepth : env'.depth = env.depth) : env.SameLinks env' := by
  have hsize : env.depth = env.current + 1 := h.size_eq
  have hsize' : env'.depth = env'.current + 1 := h'.size_eq
  refine ⟨hdepth, by omega, fun i => ?_⟩
  by_cases hi : i < env.depth
  · obtain ⟨scope, hs⟩ := scope?_lt hi
    obtain ⟨scope', hs'⟩ := scope?_lt (show i < env'.depth by omega)
    rw [hs, hs', Option.map_some, Option.map_some, h.parent_eq _ _ hs, h'.parent_eq _ _ hs']
  · rw [scope?, scope?, Array.getElem?_eq_none (Nat.le_of_not_lt hi),
      Array.getElem?_eq_none (show env'.scopes.size ≤ i by rw [← Env.depth]; omega)]

/-- Where links are the same and two names are bound by scopes at the same positions, the search for
the one goes the way of the search for the other. -/
theorem SameLinks.resolveFrom_eq {env env' : Env} (h : env.SameLinks env') {name name' : Name}
    (hbound : ∀ i, (env'.valueAt? i name').isSome = (env.valueAt? i name).isSome)
    (links i : Nat) : env'.resolveFrom name' links i = env.resolveFrom name links i := by
  induction links generalizing i with
  | zero => rfl
  | succ links ih =>
    have hparent := h.parent i
    have hfound := hbound i
    unfold valueAt? at hfound
    rw [resolveFrom, resolveFrom]
    generalize env.scope? i = found at hparent hfound ⊢
    generalize env'.scope? i = found' at hparent hfound ⊢
    rcases found with _ | scope <;> rcases found' with _ | scope'
    · rfl
    · cases hparent
    · cases hparent
    · rw [Option.map_some, Option.map_some, Option.some.injEq] at hparent
      rw [Option.bind_some, Option.bind_some] at hfound
      simp only [Scope.binds_eq_isSome, hfound, hparent, ih]

end Env

/-! ## One act -/

namespace Act

/-- The variable that the act writes. -/
def target? : Act → Option Name
  | assign name _ | declare name => some name
  | _ => none

/-- The variables that acts write. -/
def targets (acts : List Act) : List Name := acts.filterMap target?

/-- What the act declares outside the given number of open blocks, that is, if there are none. -/
def gains : Act → Nat → List Name
  | declare name, 0 => [name]
  | _, _ => []

/-- What acts declare outside every block, from a number of open blocks on. -/
def declaredOutside : List Act → Nat → List Name
  | [], _ => []
  | act :: rest, n => act.gains n ++ declaredOutside rest (act.nextLevel n)

end Act

/-- Below the position `base`, the second environment binds what the first does, and the names of
`gained` in the last of these scopes; names outside `written` have the values they had. -/
structure Framed (base : Nat) (gained written : List Name) (env env' : Env) : Prop where
  bound : ∀ i name, i < base →
    (env'.BindsAt i name ↔ env.BindsAt i name ∨ i + 1 = base ∧ name ∈ gained)
  kept : ∀ i name, i < base → name ∉ written → env'.valueAt? i name = env.valueAt? i name

namespace Framed

variable {base : Nat} {gained gained' written written' : List Name} {env env' env'' : Env}

theorem of_values (written : List Name)
    (h : ∀ i name, i < base → env'.valueAt? i name = env.valueAt? i name) :
    Framed base [] written env env' where
  bound i name hi := by
    rw [Env.bindsAt_congr (h i name hi)]
    refine ⟨.inl, fun hb => ?_⟩
    rcases hb with hb | ⟨-, hmem⟩
    · exact hb
    · exact absurd hmem List.not_mem_nil
  kept i name hi _ := h i name hi

theorem refl (base : Nat) (env : Env) : Framed base [] [] env env := of_values [] fun _ _ _ => rfl

theorem trans (h : Framed base gained written env env')
    (h' : Framed base gained' written' env' env'') :
    Framed base (gained ++ gained') (written ++ written') env env'' where
  bound i name hi := by
    rw [h'.bound i name hi, h.bound i name hi, List.mem_append]
    tauto
  kept i name hi hname := by
    rw [List.mem_append, not_or] at hname
    rw [h'.kept i name hi hname.2, h.kept i name hi hname.1]

end Framed

/-- A definition is seen below `base` only if no scope lies above. -/
theorem Env.framed_define {env : Env} (h : env.Linked) {base b : Nat}
    (hdepth : env.depth = base + b) (name : Name) (value : Value) :
    Framed base (Act.gains (.declare name) b) [name] env (env.define name value) := by
  have hsize : env.depth = env.current + 1 := h.size_eq
  have hvalue := valueAt?_bindAt (show env.current < env.depth by omega) name value
  rcases b with _ | b
  · -- No block is open: the current scope is the last one below `base`.
    refine ⟨fun i other hi => ?_, fun i other hi hother => ?_⟩
    · rw [bindsAt_iff, define, hvalue, bindsAt_iff]
      by_cases hiother : i = env.current ∧ name = other
      · obtain ⟨rfl, rfl⟩ := hiother
        rw [if_pos ⟨rfl, rfl⟩, Option.isSome_some]
        exact ⟨fun _ => .inr ⟨by omega, List.mem_singleton.2 rfl⟩, fun _ => rfl⟩
      · rw [if_neg hiother]
        simp only [Act.gains, List.mem_singleton]
        refine ⟨.inl, fun hb => ?_⟩
        rcases hb with hb | ⟨hlast, hname⟩
        · exact hb
        · exact absurd ⟨by omega, hname.symm⟩ hiother
    · rw [define, hvalue, if_neg]
      rintro ⟨-, rfl⟩
      exact hother (List.mem_singleton.2 rfl)
  · -- The current scope belongs to an open block and lies at or above `base`.
    refine Framed.of_values [name] fun i other hi => ?_
    rw [define, hvalue, if_neg]
    rintro ⟨rfl, -⟩
    omega

/-- An assignment binds nothing new. -/
theorem Env.framed_assign {env env' : Env} {name : Name} {value : Value} {line : Nat} (base : Nat)
    (h : env.assign name value line = .ok env') : Framed base [] [name] env env' := by
  obtain ⟨k, hk, hbinds, rfl⟩ := eq_bindAt_of_assign h
  have hvalue := valueAt?_bindAt hk name value
  refine ⟨fun i other _ => ?_, fun i other _ hother => ?_⟩
  · rw [bindsAt_iff, hvalue]
    by_cases hiother : i = k ∧ name = other
    · -- The one binding that is written was there before.
      obtain ⟨rfl, rfl⟩ := hiother
      simp [hbinds]
    · rw [if_neg hiother, ← bindsAt_iff]
      simp
  · rw [hvalue, if_neg]
    rintro ⟨-, rfl⟩
    exact hother (List.mem_singleton.2 rfl)

theorem Env.framed_pop {env : Env} (h : env.Linked) {base b : Nat} (hbase : 0 < base)
    (hdepth : env.depth = base + (b + 1)) :
    env.pop.depth = base + b ∧ Framed base [] [] env env.pop := by
  obtain ⟨n, hn⟩ : ∃ n, base + b = n + 1 := ⟨base + b - 1, by omega⟩
  have hd : env.depth = n + 2 := by omega
  exact ⟨by rw [depth_pop h hd, hn],
    .of_values [] fun i name hi => valueAt?_pop h hd (by omega) name⟩

/-- **One act.** With `b` blocks open above the scopes below `base`, an act that succeeds keeps the
environment linked, moves the number of open blocks, and below `base` changes what it says. -/
theorem Act.Moves.framed {act : Act} {env env' : Env} (h : act.Moves env env') (hl : env.Linked)
    {base b : Nat} (hbase : 0 < base) (hdepth : env.depth = base + b)
    (hleave : act = .leave → 0 < b) :
    env'.Linked ∧ env'.depth = base + act.nextLevel b ∧
      Framed base (act.gains b) (Act.targets [act]) env env' := by
  cases h with
  | inert hact =>
    cases act <;> simp only [Act.isInert, Bool.false_eq_true] at hact <;>
      exact ⟨hl, hdepth, .refl base env⟩
  | read => exact ⟨hl, hdepth, .refl base env⟩
  | @assign name line _ _ v ha =>
    exact ⟨hl.assign ha, (Env.depth_of_assign ha).trans hdepth, Env.framed_assign base ha⟩
  | declare name _ v =>
    exact ⟨hl.define name v, (Env.depth_define _ name v).trans hdepth,
      Env.framed_define hl hdepth name v⟩
  | enter =>
    exact ⟨hl.push, by rw [Env.depth_push, hdepth]; rfl,
      .of_values [] fun i name _ => Env.valueAt?_push env i name⟩
  | leave =>
    obtain ⟨b, rfl⟩ : ∃ k, b = k + 1 := ⟨b - 1, by have := hleave rfl; omega⟩
    obtain ⟨hd, hframed⟩ := Env.framed_pop hl hbase hdepth
    exact ⟨hl.pop, hd, hframed⟩

/-! ## A schedule -/

/-- Closing the blocks that a failure left open brings back the scopes below `base`. -/
theorem State.closeScopes_framed {base : Nat} (hbase : 0 < base) (b : Nat) {st : State}
    (hl : st.env.Linked) (hdepth : st.env.depth = base + b) :
    (st.closeScopes b).env.Linked ∧ (st.closeScopes b).env.depth = base ∧
      Framed base [] [] st.env (st.closeScopes b).env := by
  induction b generalizing st with
  | zero => exact ⟨hl, hdepth, .refl base st.env⟩
  | succ b ih =>
    obtain ⟨hd, hframed⟩ := Env.framed_pop hl hbase hdepth
    obtain ⟨hl', hd', hframed'⟩ := @ih st.closeScope hl.pop hd
    exact ⟨hl', hd', hframed.trans hframed'⟩

namespace Program

variable {p : Program}

/-- **A schedule.** The induction is on the acts; the invariant is that the scopes above `base` are
those of the blocks that are open. -/
theorem performAll_framed {base : Nat} (hbase : 0 < base) (acts : List Act) (w : Pending)
    (st : State) (hbalanced : Act.Balanced acts w.blocks) (hl : st.env.Linked)
    (hdepth : st.env.depth = base + w.blocks) :
    (p.performAll acts w st).state.env.Linked ∧
      (p.performAll acts w st).state.env.depth = base ∧
      Framed base (Act.declaredOutside (acts.take (p.performed acts w st)) w.blocks)
        (Act.targets (acts.take (p.performed acts w st))) st.env
        (p.performAll acts w st).state.env := by
  induction acts generalizing w st with
  | nil =>
    -- A balanced schedule ends with no block open.
    have hblocks : w.blocks = 0 := hbalanced
    exact ⟨hl, by rw [hblocks] at hdepth; exact hdepth, .refl base st.env⟩
  | cons act rest ih =>
    obtain ⟨hleave, hrest⟩ := hbalanced
    rw [performAll, performed]
    rcases ho : p.perform act w st with ⟨halt | w', next⟩
    · -- The act failed: what is left is to close the open blocks.
      obtain ⟨-, henv⟩ := perform_error ho
      have hclose := State.closeScopes_framed hbase w.blocks (henv ▸ hl) (henv ▸ hdepth)
      rw [henv] at hclose
      exact hclose
    · obtain ⟨hblocks, hmoves⟩ := perform_ok ho
      obtain ⟨hl', hd', hframed⟩ := hmoves.framed hl hbase hdepth hleave
      rw [← hblocks] at hrest hd'
      obtain ⟨hl'', hd'', hframed'⟩ := ih w' next hrest hl' hd'
      refine ⟨hl'', hd'', ?_⟩
      have hall := hframed.trans hframed'
      rw [hblocks] at hall
      rwa [Act.targets, Act.targets, ← List.filterMap_append] at hall

end Program

/-! ## What is declared outside every block

Of a statement that completes this is the variable it declares, and of one that fails it is
nothing: a declaration is the last act of its statement. -/

/-- The variable that the statement declares where it stands. -/
def Stmt.declared : Stmt → List Name
  | declare name _ _ => [name]
  | _ => []

theorem Act.declaredOutside_take {acts : List Act} {n : Nat} (h : declaredOutside acts n = [])
    (k : Nat) : declaredOutside (acts.take k) n = [] := by
  induction acts generalizing n k with
  | nil => rw [List.take_nil, declaredOutside]
  | cons act rest ih =>
    rw [declaredOutside, List.append_eq_nil_iff] at h
    rcases k with _ | k
    · rfl
    · rw [List.take_succ_cons, declaredOutside, h.1, List.nil_append]
      exact ih h.2 k

/-- Inside a block nothing is declared outside. -/
theorem Act.passes_declaredOutside : Act.Passes Act.declaredOutside 1 := by
  intro act rest m hm _
  obtain ⟨m, rfl⟩ : ∃ k, m = k + 1 := ⟨m - 1, by omega⟩
  rw [declaredOutside]
  cases act <;> rfl

theorem Tree.declaredOutside_acts (t : Tree) (rest : List Act) (n : Nat) :
    Act.declaredOutside (t.acts ++ rest) n = Act.declaredOutside rest n := by
  refine Tree.pass_acts (f := (Act.declaredOutside · n)) (fun act rest hact => ?_) t rest
  cases act <;> simp only [Act.inExpr, Bool.false_eq_true] at hact <;> rfl

namespace Program

variable (p : Program)

theorem declaredOutside_exprSchedule (id : NodeId) (n : Nat) :
    Act.declaredOutside (p.exprSchedule id) n = [] := by
  rw [← List.append_nil (p.exprSchedule id)]
  exact (p.arena.tree id).declaredOutside_acts [] n

theorem declaredOutside_blockSchedule (body : List Stmt) (rest : List Act) :
    Act.declaredOutside (p.blockSchedule body ++ rest) 0 = Act.declaredOutside rest 0 := by
  rw [blockSchedule, List.cons_append, List.append_assoc]
  exact StmtTree.pass_actsAll Act.passes_declaredOutside (p.arena.stmtTrees body)
    ([.leave] ++ rest) 1 (Nat.le_refl 1)

theorem declaredOutside_stmtSchedule (stmt : Stmt) (rest : List Act) :
    Act.declaredOutside (p.stmtSchedule stmt ++ rest) 0 =
      stmt.declared ++ Act.declaredOutside rest 0 := by
  rcases stmt with ⟨id, _⟩ | ⟨id, _⟩ | ⟨name, _ | id, _⟩ | ⟨body, line⟩
  · rw [stmtSchedule, Arena.stmtTree, StmtTree.acts, List.append_assoc, Tree.declaredOutside_acts]
    rfl
  · rw [stmtSchedule, Arena.stmtTree, StmtTree.acts, List.append_assoc, Tree.declaredOutside_acts]
    rfl
  · rw [stmtSchedule, Arena.stmtTree]
    rfl
  · rw [stmtSchedule, Arena.stmtTree, Option.map_some, StmtTree.acts, List.append_assoc,
      Tree.declaredOutside_acts]
    rfl
  · rw [stmtSchedule_block]
    exact p.declaredOutside_blockSchedule body rest

/-- A statement that is not performed to its end has declared nothing. -/
theorem declaredOutside_take_stmtSchedule {stmt : Stmt} {k : Nat}
    (hk : k < (p.stmtSchedule stmt).length) :
    Act.declaredOutside ((p.stmtSchedule stmt).take k) 0 = [] := by
  have hnone : stmt.declared = [] → Act.declaredOutside ((p.stmtSchedule stmt).take k) 0 = [] := by
    intro hstmt
    have hall := p.declaredOutside_stmtSchedule stmt []
    rw [List.append_nil, hstmt] at hall
    exact Act.declaredOutside_take hall k
  rcases stmt with _ | _ | ⟨name, _ | id, _⟩ | _
  · exact hnone rfl
  · exact hnone rfl
  · rw [stmtSchedule, Arena.stmtTree] at hk ⊢
    obtain rfl | rfl : k = 0 ∨ k = 1 := by
      have : k < 2 := hk
      omega
    · rfl
    · rfl
  · rw [stmtSchedule, Arena.stmtTree, Option.map_some, StmtTree.acts, ← exprSchedule] at hk ⊢
    -- Fewer than all acts are acts of the initial value.
    rw [List.length_append, List.length_singleton] at hk
    rw [List.take_append_of_le_length (by omega)]
    exact Act.declaredOutside_take (p.declaredOutside_exprSchedule id 0) k
  · exact hnone rfl

/-- The statements that run to their end, up to the first that fails. -/
def completed : List Stmt → State → List Stmt
  | [], _ => []
  | stmt :: rest, st =>
    match p.execute stmt st with
    | ⟨.ok _, next⟩ => stmt :: completed rest next
    | ⟨.error _, _⟩ => []

/-- What a run declares outside every block is what its completed statements declare. -/
theorem declaredOutside_executed (hp : p.arena.Acyclic) (stmts : List Stmt) (st : State) :
    Act.declaredOutside (p.executed (p.schedule stmts) st) 0 =
      (p.completed stmts st).flatMap Stmt.declared := by
  induction stmts generalizing st with
  | nil => rfl
  | cons stmt rest ih =>
    have hstmt := performAll_stmtSchedule hp stmt [] .empty st
    rw [List.append_nil] at hstmt
    rw [executed, schedule_cons, completed]
    rcases ho : p.execute stmt st with ⟨halt | _, next⟩ <;> rw [ho] at hstmt
    · -- The statement fails before its last act, so the run never leaves its acts.
      obtain ⟨hsame, hlt⟩ := performed_append_of_error hstmt (p.schedule rest)
      rw [hsame, List.take_append_of_le_length (Nat.le_of_lt hlt)]
      exact p.declaredOutside_take_stmtSchedule hlt
    · rw [performed_append_of_ok hstmt, List.take_length_add_append,
        declaredOutside_stmtSchedule, List.flatMap_cons]
      exact congrArg (stmt.declared ++ ·) (ih next)

end Program

/-! ## From the outside -/

/-- The scopes and their links are the same, the names bound in them are the same but for those of
`gained` in the current scope, and names outside `written` have the values they had. -/
structure Env.Kept (gained written : List Name) (env env' : Env) : Prop
    extends env.SameLinks env' where
  bound : ∀ i name,
    env'.BindsAt i name ↔ env.BindsAt i name ∨ i = env.current ∧ name ∈ gained
  value : ∀ i name, name ∉ written → env'.valueAt? i name = env.valueAt? i name

namespace Program

variable {p : Program}

theorem performAll_kept {acts : List Act} (hbalanced : Act.Balanced acts 0) {st : State}
    (hl : st.env.Linked) :
    st.env.Kept (Act.declaredOutside (p.executed acts st) 0) (Act.targets (p.executed acts st))
      (p.performAll acts .empty st).state.env := by
  have hsize : st.env.depth = st.env.current + 1 := hl.size_eq
  obtain ⟨hl', hdepth, hframed⟩ := performAll_framed (p := p) hl.depth_pos acts .empty st hbalanced
    hl rfl
  refine ⟨hl.sameLinks hl' hdepth, fun i name => ?_, fun i name hname => ?_⟩
  · by_cases hi : i < st.env.depth
    · rw [hframed.bound i name hi, hsize, Nat.succ_inj]
      rfl
    · -- There is no scope at this position, before or after.
      have hi' := Nat.le_of_not_lt hi
      rw [Env.bindsAt_iff, Env.bindsAt_iff, Env.valueAt?_of_depth_le (hdepth ▸ hi'),
        Env.valueAt?_of_depth_le hi']
      exact ⟨nofun, fun h => h.elim nofun fun h => by omega⟩
  · by_cases hi : i < st.env.depth
    · exact hframed.kept i name hi hname
    · have hi' := Nat.le_of_not_lt hi
      rw [Env.valueAt?_of_depth_le (hdepth ▸ hi'), Env.valueAt?_of_depth_le hi']

/-- An outcome that performing a schedule leads to keeps what performing it keeps. -/
theorem kept_of_forget {α : Type} {o : Outcome α} {acts : List Act} {st : State}
    {gained : List Name} (hrun : o.forget = (p.performAll acts .empty st).forget)
    (hbalanced : Act.Balanced acts 0) (hl : st.env.Linked)
    (hgained : Act.declaredOutside (p.executed acts st) 0 = gained) :
    st.env.Kept gained (Act.targets (p.executed acts st)) o.state.env := by
  rw [Outcome.state_eq_of_forget hrun, ← hgained]
  exact performAll_kept hbalanced hl

theorem executed_record (p : Program) (acts : List Act) (st : State) (event : Event) :
    p.executed acts (st.record event) = p.executed acts st := by
  rw [executed, performed_congr (st.env_record event), executed]

/-- **Scopes come back.** In an arena without cycles and from every environment that can be
reached, each way to run a program, however it ends, leaves the scopes and their links as they
were. An expression or a block binds nothing new; statements bind, in the current scope, what the
completed ones among them declare. A name that no executed act writes keeps its values. -/
theorem runs_keep_scopes (p : Program) (hp : p.arena.Acyclic) (st : State)
    (hst : st.env.Reachable) :
    (∀ id, st.env.Kept [] (Act.targets (p.executed (p.exprSchedule id) st))
        (p.evaluate id st).state.env) ∧
      (∀ body, st.env.Kept [] (Act.targets (p.executed (p.blockSchedule body) st))
        (p.executeBlock body st).state.env) ∧
      (∀ stmt, st.env.Kept ((p.completed [stmt] st).flatMap Stmt.declared)
        (Act.targets (p.executed (p.stmtSchedule stmt) st)) (p.execute stmt st).state.env) ∧
      ∀ stmts, st.env.Kept ((p.completed stmts st).flatMap Stmt.declared)
        (Act.targets (p.executed (p.schedule stmts) st)) (p.interpret stmts st).state.env := by
  have hlinked : st.env.Linked := hst.linked
  refine ⟨fun id => ?_, fun body => ?_, fun stmt => ?_, fun stmts => ?_⟩
  · exact kept_of_forget (evaluate_eq_performAll hp id st) (p.balanced_exprSchedule id) hlinked
      (Act.declaredOutside_take (p.declaredOutside_exprSchedule id 0) _)
  · have hblock := p.declaredOutside_blockSchedule body []
    rw [List.append_nil] at hblock
    exact kept_of_forget (executeBlock_eq_performAll hp body st) (p.balanced_blockSchedule body)
      hlinked (Act.declaredOutside_take hblock _)
  · have hgained := declaredOutside_executed p hp [stmt] st
    rw [schedule_singleton] at hgained
    exact kept_of_forget (execute_eq_performAll hp stmt st) (p.balanced_stmtSchedule stmt) hlinked
      hgained
  · -- The run starts with one more event in the trace, which no act reads.
    have hgained := declaredOutside_executed p hp stmts st
    have hrun := executeAll_eq_performAll hp stmts (st.record (.started stmts.length))
    rw [← executed_record p _ st (.started stmts.length)] at hgained ⊢
    rw [env_interpret]
    exact kept_of_forget hrun (p.balanced_schedule stmts) hlinked hgained

/-- The caller has declared `x` at the root and opened a scope. -/
def calling : State := ⟨(Env.new.define ⟨1⟩ .nil).push, .new .emptyBuffer, #[]⟩

/-- A reference to nothing ends this run inside its block, between two declarations there. -/
def brokenOff : List Stmt :=
  [.declare ⟨2⟩ none 1,
    .block [.expression ⟨0⟩ 2, .declare ⟨3⟩ none 2, .print ⟨3⟩ 3, .declare ⟨4⟩ none 4] 2]

/-- The block's variables are gone, the caller's scope has gained one, and only `x` was assigned. -/
theorem runs_keep_scopes_brokenOff :
    tangled.arena.Acyclic ∧ calling.env.Reachable ∧
      calling.env.Kept [⟨2⟩] [⟨2⟩, ⟨1⟩, ⟨1⟩, ⟨3⟩]
        (tangled.interpret brokenOff calling).state.env := by
  have hreach : calling.env.Reachable := ⟨[.define ⟨1⟩ .nil, .push], rfl⟩
  have hgained : (tangled.completed brokenOff calling).flatMap Stmt.declared = [⟨2⟩] := by
    decide +kernel
  have hwritten : Act.targets (tangled.executed (tangled.schedule brokenOff) calling) =
      [⟨2⟩, ⟨1⟩, ⟨1⟩, ⟨3⟩] := by decide +kernel
  have hkept := (runs_keep_scopes tangled Arena.acyclic_tangled calling hreach).2.2.2 brokenOff
  rw [hgained, hwritten] at hkept
  exact ⟨Arena.acyclic_tangled, hreach, hkept⟩

end Program

end ScriptCore
