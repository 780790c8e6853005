/-
Which variable is the first to be unbound can be told without running anything.

Values decide whether an operator fails, but never which names a scope has: a scope gains a name
when a declaration is reached and goes when its block ends. So a scan that carries nothing but the
names of each scope along the schedule sees, at every read and assignment, what the run will see
there (`NameSets.Agree`). The first name it finds in no scope is where the run ends, unless an
operator or a reference to nothing ends it before.

One act is compared in `Moves.agree` and `Fails.agree`; `performAll_firstUnbound` is the induction
over the schedule.
-/
import ScriptCore.Proofs.Frame

set_option autoImplicit false

namespace ScriptCore

/-! ## The scan -/

/-- The names bound in each scope, innermost first. -/
abbrev NameSets := List (List Name)

namespace NameSets

/-- Some scope has the name. -/
def has (sets : NameSets) (name : Name) : Bool := sets.any (·.contains name)

/-- Add a name to the innermost scope. -/
def declare (name : Name) : NameSets → NameSets
  | [] => []
  | names :: rest => (name :: names) :: rest

end NameSets

/-- The names bound in each live scope of an environment. -/
def Env.nameSets (env : Env) : NameSets := env.stack.map (·.keys)

/-- A read or an assignment in a schedule. -/
structure Occurrence where
  position : Nat
  name : Name
  line : Nat
deriving DecidableEq, Repr

/-- The occurrence stands in the schedule at its position. -/
def Occurrence.In (o : Occurrence) (acts : List Act) : Prop :=
  acts[o.position]? = some (.read o.name o.line) ∨ acts[o.position]? = some (.assign o.name o.line)

namespace Act

/-- The name that the act uses while no scope has it, and the line of the use. -/
def unbound? (sets : NameSets) : Act → Option (Name × Nat)
  | read name line | assign name line => if sets.has name then none else some (name, line)
  | _ => none

/-- The names bound in each scope after the act. -/
def nextSets (sets : NameSets) : Act → NameSets
  | declare name => sets.declare name
  | enter => [] :: sets
  | leave => sets.tail
  | _ => sets

/-- The first read or assignment in the schedule whose name no scope has. -/
def firstUnbound : List Act → NameSets → Option Occurrence
  | [], _ => none
  | act :: rest, sets =>
    match act.unbound? sets with
    | some (name, line) => some ⟨0, name, line⟩
    | none => (firstUnbound rest (act.nextSets sets)).map fun o => ⟨o.position + 1, o.name, o.line⟩

/-- What the scan finds is in the schedule. -/
theorem in_of_firstUnbound {acts : List Act} {sets : NameSets} {o : Occurrence}
    (h : firstUnbound acts sets = some o) : o.In acts := by
  induction acts generalizing sets o with
  | nil => cases h
  | cons act rest ih =>
    rw [firstUnbound] at h
    rcases hact : act.unbound? sets with _ | ⟨name, line⟩ <;> rw [hact] at h
    · obtain ⟨o', ho', rfl⟩ := Option.map_eq_some_iff.1 h
      exact ih ho'
    · obtain rfl := Option.some.inj h
      rcases act with _ | _ | _ | _ | ⟨n, l⟩ | ⟨n, l⟩ | _ | _ | _ | _ | _ <;>
        simp only [unbound?, reduceCtorEq, Option.ite_none_left_eq_some, Option.some.injEq,
          Prod.mk.injEq] at hact
      · obtain ⟨-, rfl, rfl⟩ := hact
        exact .inl rfl
      · obtain ⟨-, rfl, rfl⟩ := hact
        exact .inr rfl

end Act

/-! ## The names of a run -/

namespace NameSets

/-- The sets hold the names that the scopes bind. -/
def Agree : NameSets → ScopeStack → Prop :=
  List.Forall₂ fun names bindings => ∀ name, names.contains name = bindings.contains name

theorem agree_nameSets (env : Env) : Agree env.nameSets env.stack := by
  rw [Agree, Env.nameSets, List.forall₂_map_left_iff, List.forall₂_same]
  intro bindings _ name
  rw [Bool.eq_iff_iff, List.contains_iff_mem, Std.TreeMap.mem_keys, Std.TreeMap.mem_iff_contains]

variable {sets : NameSets} {stack stack' : ScopeStack} {name : Name} {value : Value}

theorem Agree.isSome_lookup? (h : Agree sets stack) (name : Name) :
    (stack.lookup? name).isSome = sets.has name := by
  induction h with
  | nil => rfl
  | @cons names bindings sets stack hnames _ ih =>
    rw [has, List.any_cons, hnames, ← has, ← ih, ScopeStack.lookup?, List.findSome?_cons,
      ← Std.TreeMap.isSome_getElem?_eq_contains]
    rcases bindings[name]? with _ | value
    · rfl
    · rfl

theorem Agree.isSome_assign? (h : Agree sets stack) (name : Name) (value : Value) :
    (stack.assign? name value).isSome = sets.has name := by
  induction h with
  | nil => rfl
  | @cons names bindings sets stack hnames _ ih =>
    rw [has, List.any_cons, hnames, ← has, ← ih, ScopeStack.assign?]
    -- Both searches stop at the first scope with the name.
    by_cases hin : bindings.contains name = true
    · rw [if_pos hin, hin]
      rfl
    · rw [if_neg hin, Option.isSome_map, Bool.eq_false_iff.2 hin, Bool.false_or]

/-- An assignment gives no scope a new name. -/
theorem Agree.assign? (h : Agree sets stack) (ha : stack.assign? name value = some stack') :
    Agree sets stack' := by
  induction h generalizing stack' with
  | nil => cases ha
  | @cons names bindings sets stack hnames hrest ih =>
    rw [ScopeStack.assign?] at ha
    by_cases hin : bindings.contains name = true
    · rw [if_pos hin] at ha
      obtain rfl := Option.some.inj ha
      refine .cons (fun other => ?_) hrest
      rw [hnames, Std.TreeMap.contains_insert]
      by_cases hother : compare name other = .eq
      · -- The name written was there before.
        obtain rfl := Std.LawfulEqCmp.compare_eq_iff_eq.1 hother
        rw [hin, Bool.or_true]
      · rw [beq_eq_false_iff_ne.2 hother, Bool.false_or]
    · rw [if_neg hin] at ha
      obtain ⟨stack'', ha', rfl⟩ := Option.map_eq_some_iff.1 ha
      exact .cons hnames (ih ha')

theorem Agree.define (h : Agree sets stack) (name : Name) (value : Value) :
    Agree (sets.declare name) (stack.define name value) := by
  rcases h with _ | ⟨hnames, hrest⟩
  · exact .nil
  · refine .cons (fun other => ?_) hrest
    rw [List.contains_cons, hnames, Std.TreeMap.contains_insert]
    congr 1
    rw [Bool.eq_iff_iff, beq_iff_eq, beq_iff_eq, Std.LawfulEqCmp.compare_eq_iff_eq, eq_comm]

theorem Agree.pop (h : Agree sets stack) (hlength : 2 ≤ stack.length) :
    Agree sets.tail stack.pop := by
  rcases h with _ | ⟨_, _ | ⟨hnext, hrest⟩⟩
  · exact .nil
  · exact absurd hlength (Nat.not_succ_le_self 1)
  · exact .cons hnext hrest

section Env

variable {env env' : Env} {line : Nat}

theorem Agree.has_eq_isSome (h : Agree sets env.stack) (hl : env.Linked) (name : Name) :
    sets.has name = (env.lookup? name).isSome := by
  rw [Env.lookup?_eq_stack hl, h.isSome_lookup?]

theorem Agree.of_assign_ok (h : Agree sets env.stack) (hl : env.Linked)
    (ha : env.assign name value line = .ok env') :
    sets.has name = true ∧ Agree sets env'.stack := by
  have hassign := Env.assign_eq_stack hl name value line
  have hsome := h.isSome_assign? name value
  rcases hstack : env.stack.assign? name value with _ | stack' <;>
    rw [ha, hstack] at hassign <;> rw [hstack] at hsome
  · cases hassign
  · have hnext : env'.stack = stack' := Except.ok.inj hassign
    rw [hnext]
    exact ⟨hsome.symm, h.assign? hstack⟩

theorem Agree.of_assign_error (h : Agree sets env.stack) (hl : env.Linked) {unbound : Unbound}
    (ha : env.assign name value line = .error unbound) : sets.has name = false := by
  have hassign := Env.assign_eq_stack hl name value line
  have hsome := h.isSome_assign? name value
  rcases hstack : env.stack.assign? name value with _ | stack' <;>
    rw [ha, hstack] at hassign <;> rw [hstack] at hsome
  · exact hsome.symm
  · cases hassign

end Env

end NameSets

/-! ## One act -/

/-- A run that ends for this reason was not ended by an unbound name. -/
inductive Halt.Unrelated : Halt → Prop where
  | mismatch (expected : Requirement) (line : Nat) :
      Unrelated ((Fault.typeMismatch expected).raisedAt line)
  | division (line : Nat) : Unrelated (Fault.divisionByZero.raisedAt line)
  | missing (size : Nat) (id : NodeId) : Unrelated (.missing size id)

theorem Halt.Unrelated.ne_undefined {halt : Halt} (h : halt.Unrelated) (name message : String)
    (line : Option Nat) : halt ≠ .error ⟨.undefinedVariable name, message, line⟩ := by
  rcases h with _ | _ | _ <;> exact nofun

/-- Operators know no names. -/
theorem UnaryOp.unrelated_of_apply {op : UnaryOp} {v : Value} {fault : Fault}
    (h : op.apply v = .error fault) (line : Nat) : (fault.raisedAt line).Unrelated := by
  have hrule := (unaryRule_iff op v (.error fault)).2 h
  cases hrule
  exact .mismatch _ line

theorem BinaryOp.unrelated_of_apply {op : BinaryOp} {l r : Value} {fault : Fault}
    (h : op.apply l r = .error fault) (line : Nat) : (fault.raisedAt line).Unrelated := by
  have hrule := (binaryRule_iff op l r (.error fault)).2 h
  cases hrule
  · exact .mismatch _ line
  · exact .division line
  · exact .mismatch _ line

namespace Act

variable {act : Act} {env env' : Env} {sets : NameSets}

/-- An act that succeeds had its name bound, and the scan follows it. -/
theorem Moves.agree (h : act.Moves env env') (hl : env.Linked) (hs : sets.Agree env.stack)
    (hleave : act = .leave → 2 ≤ env.depth) :
    act.unbound? sets = none ∧ (act.nextSets sets).Agree env'.stack := by
  rcases h with ⟨hact⟩ | @⟨name, line, _, v, hv⟩ | @⟨name, line, _, _, v, ha⟩ | ⟨name, _, v⟩ | _ | _
  · cases act <;> simp only [isInert, Bool.false_eq_true] at hact <;> exact ⟨rfl, hs⟩
  · have hhas : sets.has name = true := by rw [hs.has_eq_isSome hl, hv, Option.isSome_some]
    exact ⟨if_pos hhas, hs⟩
  · obtain ⟨hhas, hnext⟩ := hs.of_assign_ok hl ha
    exact ⟨if_pos hhas, hnext⟩
  · refine ⟨rfl, ?_⟩
    rw [Env.stack_define hl]
    exact hs.define name v
  · refine ⟨rfl, ?_⟩
    rw [Env.stack_push]
    exact .cons (fun _ => rfl) hs
  · refine ⟨rfl, ?_⟩
    rw [Env.stack_pop hl]
    exact hs.pop (by rw [Env.length_stack]; exact hleave rfl)

/-- An act that fails either uses an unbound name, which the scan sees too, or fails for a reason
that has nothing to do with names. -/
theorem Fails.agree {text : Name → String} {halt : Halt} (h : act.Fails text env halt)
    (hl : env.Linked) (hs : sets.Agree env.stack) :
    (∃ name line, act.unbound? sets = some (name, line) ∧
        halt = (Fault.undefinedVariable (text name)).raisedAt line) ∨
      act.unbound? sets = none ∧ halt.Unrelated := by
  rcases h with ⟨size, id⟩ | hop | hop | @⟨name, line, _, hv⟩ | @⟨name, line, _, v, ha⟩
  · exact .inr ⟨rfl, .missing size id⟩
  · exact .inr ⟨rfl, UnaryOp.unrelated_of_apply hop _⟩
  · exact .inr ⟨rfl, BinaryOp.unrelated_of_apply hop _⟩
  · have hhas : sets.has name = false := by rw [hs.has_eq_isSome hl, hv, Option.isSome_none]
    exact .inl ⟨name, line, if_neg (Bool.eq_false_iff.1 hhas), rfl⟩
  · have hhas : sets.has name = false := hs.of_assign_error hl ha
    exact .inl ⟨name, line, if_neg (Bool.eq_false_iff.1 hhas), rfl⟩

end Act

/-! ## A schedule -/

/-- What the scan of a schedule says of a run that performed this many acts and ended so: with
nothing found, no name ends it; with an occurrence found, the run ends there or before. -/
def Foretells (text : Name → String) (performed : Nat) (result : Except Halt Unit) :
    Option Occurrence → Prop
  | none => ∀ halt, result = .error halt → halt.Unrelated
  | some o =>
    result = .error ((Fault.undefinedVariable (text o.name)).raisedAt o.line) ∧
        performed = o.position ∨
      ∃ halt, result = .error halt ∧ halt.Unrelated ∧ performed < o.position

theorem Foretells.succ {text : Name → String} {performed : Nat} {result : Except Halt Unit}
    {found : Option Occurrence} (h : Foretells text performed result found) :
    Foretells text (performed + 1) result
      (found.map fun o => ⟨o.position + 1, o.name, o.line⟩) := by
  rcases found with _ | o
  · exact h
  · rcases h with ⟨hresult, hat⟩ | ⟨halt, hresult, hunrelated, hbefore⟩
    · exact .inl ⟨hresult, congrArg (· + 1) hat⟩
    · exact .inr ⟨halt, hresult, hunrelated, Nat.succ_lt_succ hbefore⟩

namespace Program

variable {p : Program}

/-- **A schedule.** The induction is on the acts. The invariant is that the sets hold the names of
the scopes, and that there is a scope for every open block above the scopes below `base`, so that
the last scope is never closed. -/
theorem performAll_firstUnbound {base : Nat} (hbase : 0 < base) (acts : List Act) (w : Pending)
    (st : State) {sets : NameSets} (hbalanced : Act.Balanced acts w.blocks) (hl : st.env.Linked)
    (hdepth : st.env.depth = base + w.blocks) (hs : sets.Agree st.env.stack) :
    Foretells p.names.text (p.performed acts w st) (p.performAll acts w st).forget.result
      (Act.firstUnbound acts sets) := by
  induction acts generalizing w st sets with
  | nil =>
    intro halt hhalt
    cases hhalt
  | cons act rest ih =>
    obtain ⟨hleave, hrest⟩ := hbalanced
    rw [performAll, performed, Act.firstUnbound]
    rcases ho : p.perform act w st with ⟨halt | w', next⟩
    · obtain ⟨hfails, -⟩ := perform_error ho
      rcases hfails.agree hl hs with ⟨name, line, hunbound, rfl⟩ | ⟨hbound, hunrelated⟩
      · rw [hunbound]
        exact .inl ⟨rfl, rfl⟩
      · -- Whatever the scan finds from here on lies behind this act.
        rw [hbound]
        rcases Act.firstUnbound rest (act.nextSets sets) with _ | o
        · intro halt' hhalt'
          obtain rfl := Except.error.inj hhalt'
          exact hunrelated
        · exact .inr ⟨halt, rfl, hunrelated, Nat.succ_pos _⟩
    · obtain ⟨hblocks, hmoves⟩ := perform_ok ho
      -- The act succeeded, so its name was bound and the scan goes on with it.
      obtain ⟨hl', hd', -⟩ := hmoves.framed hl hbase hdepth hleave
      obtain ⟨hbound, hs'⟩ := hmoves.agree hl hs fun hact => by
        have := hleave hact
        omega
      rw [← hblocks] at hrest hd'
      rw [hbound]
      exact (ih w' next hrest hl' hd' hs').succ

/-- **Static scoping is exact.** Take an arena without cycles, an environment that can be reached,
and the first read or assignment, in the order of evaluation, whose name is in no scope by then. If
there is none, the program never ends with an undefined variable. If there is one, the program does
not succeed: it ends there, with the text of the name, the message made of it and the line of the
node, or it was ended before by an operator or by a reference to nothing. -/
theorem firstUnbound_foretells_interpret (p : Program) (hp : p.arena.Acyclic) (st : State)
    (hst : st.env.Reachable) (stmts : List Stmt) :
    (Act.firstUnbound (p.schedule stmts) st.env.nameSets = none →
        ∀ text message line,
          (p.interpret stmts st).result ≠
            .error (.error ⟨.undefinedVariable text, message, line⟩)) ∧
      ∀ o, Act.firstUnbound (p.schedule stmts) st.env.nameSets = some o →
        o.In (p.schedule stmts) ∧ (p.interpret stmts st).result ≠ .ok () ∧
          ((p.interpret stmts st).result =
                .error (.error ⟨.undefinedVariable (p.names.text o.name),
                  "Undefined variable '" ++ p.names.text o.name ++ "'.", some o.line⟩) ∧
              p.performed (p.schedule stmts) .empty st = o.position ∨
            ∃ halt, (p.interpret stmts st).result = .error halt ∧ halt.Unrelated ∧
              p.performed (p.schedule stmts) .empty st < o.position) := by
  have hl : st.env.Linked := hst.linked
  have hforetold : Foretells p.names.text (p.performed (p.schedule stmts) .empty st)
      (p.interpret stmts st).result
      (Act.firstUnbound (p.schedule stmts) st.env.nameSets) := by
    rw [result_interpret, ← Outcome.forget_unit (p.executeAll _ _), executeAll_eq_performAll hp,
      ← performed_congr (st.env_record (.started stmts.length))]
    exact performAll_firstUnbound hl.depth_pos _ _ _ (p.balanced_schedule stmts) hl rfl
      (NameSets.agree_nameSets st.env)
  refine ⟨fun hnone text message line hresult => ?_, fun o ho => ?_⟩
  · rw [hnone] at hforetold
    exact (hforetold _ hresult).ne_undefined text message line rfl
  · rw [ho] at hforetold
    refine ⟨Act.in_of_firstUnbound ho, fun hok => ?_, hforetold⟩
    rcases hforetold with ⟨hresult, -⟩ | ⟨halt, hresult, -⟩ <;> rw [hok] at hresult <;>
      cases hresult

/-- The block declares and assigns a variable of its own, which is gone when `x` is read. -/
def outlived : List Stmt :=
  [.block [.declare ⟨1⟩ none 1, .expression ⟨0⟩ 2] 1, .print ⟨1⟩ 3]

theorem firstUnbound_foretells_outlived :
    tangled.arena.Acyclic ∧ (State.new .emptyBuffer).env.Reachable ∧
      Act.firstUnbound (tangled.schedule outlived) (State.new .emptyBuffer).env.nameSets =
        some ⟨10, ⟨1⟩, 2⟩ ∧
      (tangled.interpret outlived (.new .emptyBuffer)).result =
        .error (.error ⟨.undefinedVariable "x", "Undefined variable 'x'.", some 2⟩) := by
  have hreach : (State.new .emptyBuffer).env.Reachable := Env.reachable_new
  have hfirst : Act.firstUnbound (tangled.schedule outlived)
      (State.new .emptyBuffer).env.nameSets = some ⟨10, ⟨1⟩, 2⟩ := by decide +kernel
  have hperformed :
      tangled.performed (tangled.schedule outlived) .empty (.new .emptyBuffer) = 10 := by
    decide +kernel
  obtain ⟨-, -, hrun⟩ := (firstUnbound_foretells_interpret tangled Arena.acyclic_tangled _ hreach
    outlived).2 _ hfirst
  refine ⟨Arena.acyclic_tangled, hreach, hfirst, ?_⟩
  rcases hrun with ⟨hresult, -⟩ | ⟨_, -, -, hbefore⟩
  · exact hresult
  · rw [hperformed] at hbefore
    exact absurd hbefore (Nat.lt_irrefl 10)

end Program

end ScriptCore
