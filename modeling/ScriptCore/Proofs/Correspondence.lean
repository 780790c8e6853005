/-
Two runs side by side.

Two programs whose schedules differ in names and values only, run in environments that differ in the
same way, do the same things in the same order. A `Correspondence` says which names and which values
stand for each other, and what the operators must do for that: on corresponding operands they give
corresponding results or fail for the same reason. Some faults may be excepted: where an operator
raises one of these in one run, that run ends and nothing more is said about the other.

One act keeps two states in correspondence (`perform_corresponds`), and a schedule does so by
induction (`performAll_corresponds`). The links of the environments and the positions at which names
are bound are the same throughout, so a name and its counterpart are found in the same scope without
any assumption on how the scopes are linked.
-/
import ScriptCore.Proofs.Frame
import ScriptCore.Proofs.Leaves

set_option autoImplicit false

namespace ScriptCore

/-! ## Environments with the same links -/

namespace Env

variable {env env' : Env}

theorem bindAt_of_depth_le {k : Nat} (hk : env.depth ≤ k) (name : Name) (value : Value) :
    env.bindAt k name value = env := by
  have hscopes : env.scopes.modify k (·.bind name value) = env.scopes := by
    apply Array.ext_getElem?
    intro i
    rw [Array.getElem?_modify]
    by_cases hi : k = i
    · subst hi
      rw [if_pos rfl, Array.getElem?_eq_none hk]
      rfl
    · rw [if_neg hi]
  rw [bindAt, hscopes]

theorem scope?_shrink (env : Env) (n parent i : Nat) :
    (⟨env.scopes.shrink n, parent⟩ : Env).scope? i = if i < n then env.scope? i else none := by
  rw [scope?, ← Array.getElem?_toList, Array.toList_shrink, List.getElem?_take, scope?,
    Array.getElem?_toList]

theorem valueAt?_shrink (env : Env) (n parent i : Nat) (name : Name) :
    (⟨env.scopes.shrink n, parent⟩ : Env).valueAt? i name =
      if i < n then env.valueAt? i name else none := by
  rw [valueAt?, scope?_shrink]
  by_cases hi : i < n
  · rw [if_pos hi, if_pos hi, valueAt?]
  · rw [if_neg hi, if_neg hi]
    rfl

theorem bindsAt_of_shrink {n parent i : Nat} {name : Name}
    (h : (⟨env.scopes.shrink n, parent⟩ : Env).BindsAt i name) : env.BindsAt i name := by
  rw [bindsAt_iff, valueAt?_shrink] at h
  by_cases hi : i < n
  · rw [if_pos hi] at h
    rw [bindsAt_iff, h]
  · rw [if_neg hi] at h
    cases h

theorem bindsAt_of_bindAt {k : Nat} (hk : k < env.depth) {name other : Name} {value : Value}
    {i : Nat} (h : (env.bindAt k name value).BindsAt i other) :
    name = other ∨ env.BindsAt i other := by
  rw [bindsAt_iff, valueAt?_bindAt hk] at h
  by_cases hsame : i = k ∧ name = other
  · exact .inl hsame.2
  · rw [if_neg hsame, ← bindsAt_iff] at h
    exact .inr h

namespace SameLinks

theorem push (h : env.SameLinks env') : env.push.SameLinks env'.push := by
  have hsize : env'.scopes.size = env.scopes.size := h.depth
  refine ⟨by rw [depth_push, depth_push, h.depth], hsize, fun i => ?_⟩
  rw [scope?, scope?, Env.push, Env.push, Array.getElem?_push, Array.getElem?_push, hsize,
    h.current]
  by_cases hi : i = env.scopes.size
  · rw [if_pos hi, if_pos hi]
  · rw [if_neg hi, if_neg hi]
    exact h.parent i

theorem parent_bindAt (env : Env) (k i : Nat) (name : Name) (value : Value) :
    ((env.bindAt k name value).scope? i).map (·.parent) = (env.scope? i).map (·.parent) := by
  rw [scope?, bindAt, Array.getElem?_modify]
  by_cases hi : k = i
  · rw [if_pos hi, Option.map_map]
    rfl
  · rw [if_neg hi]
    rfl

theorem bindAt (h : env.SameLinks env') (k : Nat) (name name' : Name) (value value' : Value) :
    (env.bindAt k name value).SameLinks (env'.bindAt k name' value') := by
  refine ⟨by rw [depth_bindAt, depth_bindAt, h.depth], h.current, fun i => ?_⟩
  rw [parent_bindAt, parent_bindAt, h.parent]

/-- Both environments are at a root, or both go back to the same scope. -/
theorem pop_cases (h : env.SameLinks env') :
    env.pop = env ∧ env'.pop = env' ∨
      ∃ parent, env.pop = ⟨env.scopes.shrink env.current, parent⟩ ∧
        env'.pop = ⟨env'.scopes.shrink env.current, parent⟩ := by
  have hparent := h.parent env.current
  rw [Env.pop, Env.pop, h.current]
  generalize env.scope? env.current = found at hparent ⊢
  generalize env'.scope? env.current = found' at hparent ⊢
  rcases found with _ | ⟨bindings, parent⟩ <;> rcases found' with _ | ⟨bindings', parent'⟩
  · exact .inl ⟨rfl, rfl⟩
  · cases hparent
  · cases hparent
  · rw [Option.map_some, Option.map_some, Option.some.injEq] at hparent
    obtain rfl : parent' = parent := hparent
    rcases parent' with _ | parent
    · exact .inl ⟨rfl, rfl⟩
    · exact .inr ⟨parent, rfl, rfl⟩

theorem shrink (h : env.SameLinks env') (n parent : Nat) :
    SameLinks ⟨env.scopes.shrink n, parent⟩ ⟨env'.scopes.shrink n, parent⟩ := by
  have hsize : env'.scopes.size = env.scopes.size := h.depth
  refine ⟨?_, rfl, fun i => ?_⟩
  · rw [Env.depth, Env.depth, Array.size_shrink, Array.size_shrink, hsize]
  · rw [scope?_shrink, scope?_shrink]
    by_cases hi : i < n
    · rw [if_pos hi, if_pos hi, h.parent]
    · rw [if_neg hi, if_neg hi]

end SameLinks

end Env

/-! ## What stands for what -/

/-- The results of an operator correspond: two values that do, or one fault. A fault that leaks may
stand against anything. -/
inductive SameResult (values : Value → Value → Prop) (leaks : Fault → Prop) :
    Except Fault Value → Except Fault Value → Prop where
  | ok {v v' : Value} : values v v' → SameResult values leaks (.ok v) (.ok v')
  | error (fault : Fault) : SameResult values leaks (.error fault) (.error fault)
  | leaksFirst {fault : Fault} (res : Except Fault Value) : leaks fault →
      SameResult values leaks (.error fault) res
  | leaksSecond {fault : Fault} (res : Except Fault Value) : leaks fault →
      SameResult values leaks res (.error fault)

/-- What of one run stands for what of another. A name of the first run that is known stands for its
image, and no two known names have one image. -/
structure Correspondence where
  rename : Name → Name
  known : Name → Prop
  values : Value → Value → Prop
  outputs : Output → Output → Prop
  /-- The faults that may end one of the runs alone. -/
  leaks : Fault → Prop
  rename_inj : ∀ {n m : Name}, known n → known m → rename n = rename m → n = m
  nil : values .nil .nil
  print : ∀ {v v' : Value} {o o' : Output}, values v v' → outputs o o' →
    outputs (o.printLine v.text) (o'.printLine v'.text)
  report : ∀ {o o' : Output} (text : String), outputs o o' →
    outputs (o.reportLine text) (o'.reportLine text)
  unary : ∀ (op : UnaryOp) {v v' : Value}, values v v' →
    SameResult values leaks (op.apply v) (op.apply v')
  binary : ∀ (op : BinaryOp) {l l' r r' : Value}, values l l' → values r r' →
    SameResult values leaks (op.apply l r) (op.apply l' r')

namespace Correspondence

variable (C : Correspondence)

/-! ## Environments -/

/-- The links are the same, corresponding names have corresponding values at the same positions, and
nothing else is bound. -/
structure Envs (env env' : Env) : Prop extends env.SameLinks env' where
  value : ∀ i name, C.known name →
    Option.Rel C.values (env.valueAt? i name) (env'.valueAt? i (C.rename name))
  bound : ∀ i name, env.BindsAt i name → C.known name
  bound' : ∀ i name', env'.BindsAt i name' → ∃ name, C.known name ∧ C.rename name = name'

end Correspondence

theorem isSome_eq_of_rel {α β : Type} {R : α → β → Prop} {a : Option α} {b : Option β}
    (h : Option.Rel R a b) : b.isSome = a.isSome := by
  rcases h with - | -
  · rfl
  · rfl

namespace Correspondence.Envs

variable {C : Correspondence} {env env' : Env}

theorem push (h : C.Envs env env') : C.Envs env.push env'.push := by
  refine ⟨h.toSameLinks.push, fun i name hname => ?_, fun i name hbinds => ?_,
    fun i name' hbinds => ?_⟩
  · rw [Env.valueAt?_push, Env.valueAt?_push]
    exact h.value i name hname
  · rw [Env.bindsAt_congr (Env.valueAt?_push env i name)] at hbinds
    exact h.bound i name hbinds
  · rw [Env.bindsAt_congr (Env.valueAt?_push env' i name')] at hbinds
    exact h.bound' i name' hbinds

theorem pop (h : C.Envs env env') : C.Envs env.pop env'.pop := by
  obtain ⟨hroot, hroot'⟩ | ⟨parent, hpop, hpop'⟩ := h.toSameLinks.pop_cases
  · rw [hroot, hroot']
    exact h
  rw [hpop, hpop']
  -- What is left below the closed scope was there before.
  refine ⟨h.toSameLinks.shrink _ parent, fun i name hname => ?_,
    fun i name hbinds => h.bound i name (Env.bindsAt_of_shrink hbinds),
    fun i name' hbinds => h.bound' i name' (Env.bindsAt_of_shrink hbinds)⟩
  rw [Env.valueAt?_shrink, Env.valueAt?_shrink]
  by_cases hi : i < env.current
  · rw [if_pos hi, if_pos hi]
    exact h.value i name hname
  · rw [if_neg hi, if_neg hi]
    exact .none

/-- A known name and its counterpart are bound, at one position. -/
theorem bindAt (h : C.Envs env env') {name : Name} (hname : C.known name) {v v' : Value}
    (hv : C.values v v') (k : Nat) :
    C.Envs (env.bindAt k name v) (env'.bindAt k (C.rename name) v') := by
  by_cases hk : k < env.depth
  · have hk' : k < env'.depth := by rwa [h.depth]
    refine ⟨h.toSameLinks.bindAt k _ _ _ _, fun i other hother => ?_, fun i other hbinds => ?_,
      fun i other' hbinds => ?_⟩
    · rw [Env.valueAt?_bindAt hk, Env.valueAt?_bindAt hk']
      by_cases hsame : i = k ∧ name = other
      · have hsame' : i = k ∧ C.rename name = C.rename other :=
          ⟨hsame.1, congrArg C.rename hsame.2⟩
        rw [if_pos hsame, if_pos hsame']
        exact .some hv
      · -- Another known name has another image.
        have hsame' : ¬ (i = k ∧ C.rename name = C.rename other) := fun himage =>
          hsame ⟨himage.1, C.rename_inj hname hother himage.2⟩
        rw [if_neg hsame, if_neg hsame']
        exact h.value i other hother
    · rcases Env.bindsAt_of_bindAt hk hbinds with rfl | hbinds
      · exact hname
      · exact h.bound i other hbinds
    · rcases Env.bindsAt_of_bindAt hk' hbinds with rfl | hbinds
      · exact ⟨name, hname, rfl⟩
      · exact h.bound' i other' hbinds
  · have hk' : env'.depth ≤ k := by
      rw [h.depth]
      exact Nat.le_of_not_lt hk
    rw [Env.bindAt_of_depth_le (Nat.le_of_not_lt hk), Env.bindAt_of_depth_le hk']
    exact h

theorem define (h : C.Envs env env') {name : Name} (hname : C.known name) {v v' : Value}
    (hv : C.values v v') : C.Envs (env.define name v) (env'.define (C.rename name) v') := by
  rw [Env.define, Env.define, h.current]
  exact h.bindAt hname hv _

theorem resolve?_eq (h : C.Envs env env') {name : Name} (hname : C.known name) :
    env'.resolve? (C.rename name) = env.resolve? name := by
  rw [Env.resolve?, Env.resolve?, h.depth, h.current]
  exact h.toSameLinks.resolveFrom_eq (fun i => isSome_eq_of_rel (h.value i name hname)) _ _

theorem lookup? (h : C.Envs env env') {name : Name} (hname : C.known name) :
    Option.Rel C.values (env.lookup? name) (env'.lookup? (C.rename name)) := by
  rw [Env.lookup?, Env.lookup?, h.resolve?_eq hname]
  rcases env.resolve? name with _ | i
  · exact .none
  · exact h.value i name hname

end Correspondence.Envs

/-! ## States and outcomes -/

namespace Correspondence

variable (C : Correspondence)

structure States (st st' : State) : Prop where
  env : C.Envs st.env st'.env
  output : C.outputs st.output st'.output

/-- Values that wait for later acts correspond one by one, and as many blocks are open. -/
structure Pendings (w w' : Pending) : Prop where
  values : List.Forall₂ C.values w.values w'.values
  blocks : w.blocks = w'.blocks

/-- The runs have come to corresponding results, or have ended alike, or one has leaked. -/
inductive Outcomes {α β : Type} (R : α → β → Prop) : Outcome α → Outcome β → Prop where
  | ok {a : α} {b : β} {st st' : State} : R a b → C.States st st' →
      Outcomes R ⟨.ok a, st⟩ ⟨.ok b, st'⟩
  | error (halt : Halt) {st st' : State} : C.States st st' →
      Outcomes R ⟨.error halt, st⟩ ⟨.error halt, st'⟩
  | leaksFirst {fault : Fault} (line : Nat) (st : State) (o : Outcome β) : C.leaks fault →
      Outcomes R ⟨.error (fault.raisedAt line), st⟩ o
  | leaksSecond {fault : Fault} (line : Nat) (o : Outcome α) (st : State) : C.leaks fault →
      Outcomes R o ⟨.error (fault.raisedAt line), st⟩

/-- The run was ended by a fault that leaks. -/
def Leaked {α : Type} (o : Outcome α) : Prop :=
  ∃ fault line, C.leaks fault ∧ o.result = .error (fault.raisedAt line)

variable {C}

namespace States

variable {st st' : State}

theorem record (h : C.States st st') (event event' : Event) :
    C.States (st.record event) (st'.record event') := ⟨h.env, h.output⟩

theorem enterBlock (h : C.States st st') : C.States st.enterBlock st'.enterBlock :=
  ⟨h.env.push, h.output⟩

theorem closeScope (h : C.States st st') : C.States st.closeScope st'.closeScope :=
  ⟨h.env.pop, h.output⟩

theorem closeScopes (h : C.States st st') (n : Nat) :
    C.States (st.closeScopes n) (st'.closeScopes n) := by
  induction n generalizing st st' with
  | zero => exact h
  | succ n ih => exact ih h.closeScope

theorem printLine (h : C.States st st') {v v' : Value} (hv : C.values v v') :
    C.States (st.printLine v.text) (st'.printLine v'.text) := ⟨h.env, C.print hv h.output⟩

theorem define (h : C.States st st') {name : Name} (hname : C.known name) {v v' : Value}
    (hv : C.values v v') : C.States (st.define name v) (st'.define (C.rename name) v') :=
  ⟨h.env.define hname hv, h.output⟩

end States

namespace Pendings

variable {w w' : Pending}

theorem empty : C.Pendings .empty .empty := ⟨.nil, rfl⟩

theorem push (h : C.Pendings w w') {v v' : Value} (hv : C.values v v') :
    C.Pendings (w.push v) (w'.push v') := ⟨.cons hv h.values, h.blocks⟩

theorem top (h : C.Pendings w w') : C.values w.top w'.top := by
  obtain ⟨values, blocks⟩ := w
  obtain ⟨values', blocks'⟩ := w'
  rcases h.values with - | ⟨hv, -⟩
  · exact C.nil
  · exact hv

theorem drop (h : C.Pendings w w') : C.Pendings w.drop w'.drop := by
  obtain ⟨values, blocks⟩ := w
  obtain ⟨values', blocks'⟩ := w'
  refine ⟨?_, h.blocks⟩
  rcases h.values with - | ⟨-, hrest⟩
  · exact .nil
  · exact hrest

end Pendings

namespace Outcomes

variable {α β γ δ : Type} {R : α → β → Prop} {S : γ → δ → Prop} {o : Outcome α} {o' : Outcome β}

/-- Going on from corresponding outcomes. -/
theorem andThen (h : C.Outcomes R o o') {next : α → State → Outcome γ}
    {next' : β → State → Outcome δ}
    (hnext : ∀ a b st st', R a b → C.States st st' → C.Outcomes S (next a st) (next' b st')) :
    C.Outcomes S (o.andThen next) (o'.andThen next') := by
  rcases h with ⟨hab, hst⟩ | ⟨halt, hst⟩ | ⟨line, st, -, hleak⟩ | ⟨line, -, st, hleak⟩
  · exact hnext _ _ _ _ hab hst
  · exact .error halt hst
  · exact .leaksFirst line st _ hleak
  · exact .leaksSecond line _ st hleak

theorem closing (h : C.Outcomes R o o') (n : Nat) :
    C.Outcomes R (o.closing n) (o'.closing n) := by
  rcases h with ⟨hab, hst⟩ | ⟨halt, hst⟩ | ⟨line, st, -, hleak⟩ | ⟨line, -, st, hleak⟩
  · exact .ok hab hst
  · exact .error halt (hst.closeScopes n)
  · exact .leaksFirst line _ _ hleak
  · exact .leaksSecond line _ _ hleak

/-- If no run has leaked, both have ended in corresponding states. -/
theorem states (h : C.Outcomes R o o') (hleak : ¬ C.Leaked o) (hleak' : ¬ C.Leaked o') :
    C.States o.state o'.state := by
  rcases h with ⟨-, hst⟩ | ⟨-, hst⟩ | ⟨line, st, -, hfault⟩ | ⟨line, -, st, hfault⟩
  · exact hst
  · exact hst
  · exact absurd ⟨_, line, hfault, rfl⟩ hleak
  · exact absurd ⟨_, line, hfault, rfl⟩ hleak'

/-- If no run has leaked, they have equal results where corresponding ones are equal. -/
theorem result_eq {o o' : Outcome α} (h : C.Outcomes (· = ·) o o') (hleak : ¬ C.Leaked o)
    (hleak' : ¬ C.Leaked o') : o.result = o'.result := by
  rcases h with ⟨rfl, -⟩ | - | ⟨line, st, -, hfault⟩ | ⟨line, -, st, hfault⟩
  · rfl
  · rfl
  · exact absurd ⟨_, line, hfault, rfl⟩ hleak
  · exact absurd ⟨_, line, hfault, rfl⟩ hleak'

end Outcomes

/-! ## Acts -/

end Correspondence

/-- The act is about no name and no literal. -/
def Act.isPlain : Act → Bool
  | literal _ | read _ _ | assign _ _ | declare _ => false
  | missing _ _ | unary _ _ | binary _ _ | discard | print | enter | leave => true

/-- The acts are the same up to names and values. A name that an error may quote has one text in
both runs. -/
inductive Correspondence.Acts (C : Correspondence) (text text' : Name → String) :
    Act → Act → Prop where
  | plain {act : Act} : act.isPlain = true → Acts C text text' act act
  | literal {l l' : Literal} : C.values (l.valueIn text) (l'.valueIn text') →
      Acts C text text' (.literal l) (.literal l')
  | read {name : Name} (line : Nat) : C.known name → text name = text' (C.rename name) →
      Acts C text text' (.read name line) (.read (C.rename name) line)
  | assign {name : Name} (line : Nat) : C.known name → text name = text' (C.rename name) →
      Acts C text text' (.assign name line) (.assign (C.rename name) line)
  | declare {name : Name} : C.known name →
      Acts C text text' (.declare name) (.declare (C.rename name))

namespace Program

variable {C : Correspondence} {p p' : Program} {st st' : State}

theorem literalValue_eq_valueIn (p : Program) (l : Literal) :
    p.literalValue l = l.valueIn p.names.text := by
  rcases l with _ | _ | _ | _ <;> rfl

/-- An operator goes on from its result; a refusal is traced, in words of its own. -/
theorem applied_corresponds (hst : C.States st st') (line : Nat) (event event' : Event)
    (res res' : Except Fault Value) :
    SameResult C.values C.leaks res res' → C.Outcomes C.values
      (match res with
        | .ok value => .done value st
        | .error fault => .fail (fault.raisedAt line) (st.record event))
      (match res' with
        | .ok value => .done value st'
        | .error fault => .fail (fault.raisedAt line) (st'.record event')) := by
  intro h
  rcases h with hvalue | fault | ⟨-, hleak⟩ | ⟨-, hleak⟩
  · exact .ok hvalue hst
  · exact .error _ (hst.record event event')
  · exact .leaksFirst line _ _ hleak
  · exact .leaksSecond line _ _ hleak

theorem applyUnary_corresponds (op : UnaryOp) {v v' : Value} (hv : C.values v v') (line : Nat)
    (hst : C.States st st') :
    C.Outcomes C.values (st.applyUnary op v line) (st'.applyUnary op v' line) :=
  applied_corresponds hst line _ _ _ _ (C.unary op hv)

theorem applyBinary_corresponds (op : BinaryOp) {l l' r r' : Value} (hl : C.values l l')
    (hr : C.values r r') (line : Nat) (hst : C.States st st') :
    C.Outcomes C.values (st.applyBinary op l r line) (st'.applyBinary op l' r' line) :=
  applied_corresponds hst line _ _ _ _ (C.binary op hl hr)

theorem undefined_eq {name name' : Name} (h : p.names.text name = p'.names.text name')
    (line : Nat) : p.undefined ⟨name, line⟩ = p'.undefined ⟨name', line⟩ := by
  rw [undefined, undefined, h]

theorem readName_corresponds {name : Name} (hname : C.known name)
    (htext : p.names.text name = p'.names.text (C.rename name)) (line : Nat)
    (hst : C.States st st') :
    C.Outcomes C.values (p.readName name line st) (p'.readName (C.rename name) line st') := by
  have hfound := hst.env.lookup? hname
  rw [readName, readName, Env.get, Env.get]
  generalize st.env.lookup? name = found at hfound ⊢
  generalize st'.env.lookup? (C.rename name) = found' at hfound ⊢
  rcases hfound with hv | -
  · exact .ok hv hst
  · simp only [undefined_eq htext line]
    exact .error _ hst

theorem assignName_corresponds {name : Name} (hname : C.known name)
    (htext : p.names.text name = p'.names.text (C.rename name)) {v v' : Value}
    (hv : C.values v v') (line : Nat) (hst : C.States st st') :
    C.Outcomes C.values (p.assignName name v line st)
      (p'.assignName (C.rename name) v' line st') := by
  rw [assignName, assignName, Env.assign, Env.assign, hst.env.resolve?_eq hname]
  rcases st.env.resolve? name with _ | k
  · simp only [undefined_eq htext line]
    exact .error _ hst
  · exact .ok hv ⟨hst.env.bindAt hname hv k, hst.output⟩

/-- **One act.** Corresponding acts on corresponding states lead to corresponding outcomes. -/
theorem perform_corresponds {act act' : Act} {w w' : Pending}
    (hact : C.Acts p.names.text p'.names.text act act') (hw : C.Pendings w w')
    (hst : C.States st st') :
    C.Outcomes C.Pendings (p.perform act w st) (p'.perform act' w' st') := by
  rcases hact with hplain | hvalue | ⟨line, hname, htext⟩ | ⟨line, hname, htext⟩ | hname
  · cases act with
    | literal | read | assign | declare => cases hplain
    | missing size id => exact .error _ hst
    | unary op line =>
      refine (applyUnary_corresponds op hw.top line hst).andThen fun v v' st st' hv hst => ?_
      exact .ok (hw.drop.push hv) hst
    | binary op line =>
      refine (applyBinary_corresponds op hw.drop.top hw.top line hst).andThen
        fun v v' st st' hv hst => ?_
      exact .ok (hw.drop.drop.push hv) hst
    | discard => exact .ok hw.drop hst
    | print => exact .ok hw.drop (hst.printLine hw.top)
    | enter => exact .ok ⟨hw.values, congrArg (· + 1) hw.blocks⟩ hst.enterBlock
    | leave => exact .ok ⟨hw.values, congrArg (· - 1) hw.blocks⟩ hst.closeScope
  · rw [← literalValue_eq_valueIn, ← literalValue_eq_valueIn] at hvalue
    exact .ok (hw.push hvalue) hst
  · refine (readName_corresponds hname htext line hst).andThen fun v v' st st' hv hst => ?_
    exact .ok (hw.push hv) hst
  · refine (assignName_corresponds hname htext hw.top line hst).andThen
      fun v v' st st' hv hst => ?_
    exact .ok (hw.drop.push hv) hst
  · exact .ok hw.drop (hst.define hname hw.top)

/-- **A schedule.** The induction is on the acts of both schedules at once. Unless one of the runs
leaks, both get equally far. -/
theorem performAll_corresponds {acts acts' : List Act}
    (hacts : List.Forall₂ (C.Acts p.names.text p'.names.text) acts acts') {w w' : Pending}
    (hw : C.Pendings w w') (hst : C.States st st') :
    C.Outcomes C.Pendings (p.performAll acts w st) (p'.performAll acts' w' st') ∧
      (C.Leaked (p.performAll acts w st) ∨ C.Leaked (p'.performAll acts' w' st') ∨
        p.performed acts w st = p'.performed acts' w' st') := by
  induction hacts generalizing w w' st st' with
  | nil => exact ⟨.ok hw hst, .inr (.inr rfl)⟩
  | @cons act act' acts acts' hact hrest ih =>
    have hfirst := perform_corresponds hact hw hst
    rw [performAll, performAll, performed, performed, ← hw.blocks]
    refine ⟨(hfirst.closing _).andThen fun w w' st st' hw hst => (ih hw hst).1, ?_⟩
    generalize p.perform act w st = o at hfirst ⊢
    generalize p'.perform act' w' st' = o' at hfirst ⊢
    rcases hfirst with ⟨hw, hst⟩ | - | ⟨line, st, -, hleak⟩ | ⟨line, -, st, hleak⟩
    · obtain hleak | hleak' | hsame := (ih hw hst).2
      · exact .inl hleak
      · exact .inr (.inl hleak')
      · exact .inr (.inr (congrArg (· + 1) hsame))
    · exact .inr (.inr rfl)
    · exact .inl ⟨_, line, hleak, rfl⟩
    · exact .inr (.inl ⟨_, line, hleak, rfl⟩)

end Program

/-! ## Schedules that correspond -/

namespace Correspondence

variable (C : Correspondence) (text text' : Name → String)

/-- The forms are the same up to names and literals; operands stand at the same positions. -/
inductive Forms : Form → Form → Prop where
  | literal {l l' : Literal} : C.values (l.valueIn text) (l'.valueIn text') →
      Forms (.literal l) (.literal l')
  | grouping (inner : NodeId) : Forms (.grouping inner) (.grouping inner)
  | unary (op : UnaryOp) (operand : NodeId) : Forms (.unary op operand) (.unary op operand)
  | binary (op : BinaryOp) (left right : NodeId) :
      Forms (.binary op left right) (.binary op left right)
  | read {name : Name} : C.known name → text name = text' (C.rename name) →
      Forms (.read name) (.read (C.rename name))
  | assign {name : Name} (value : NodeId) : C.known name → text name = text' (C.rename name) →
      Forms (.assign name value) (.assign (C.rename name) value)

structure Nodes (node node' : Node) : Prop where
  form : C.Forms text text' node.form node'.form
  line : node.line = node'.line

end Correspondence

namespace Stmt

mutual

/-- The statement with other names. -/
def rename (r : Name → Name) : Stmt → Stmt
  | .expression value line => .expression value line
  | .print value line => .print value line
  | .declare name init line => .declare (r name) init line
  | .block body line => .block (renameAll r body) line

/-- Statements with other names. -/
def renameAll (r : Name → Name) : List Stmt → List Stmt
  | [] => []
  | stmt :: rest => rename r stmt :: renameAll r rest

end

end Stmt

namespace Program

variable {C : Correspondence} {p p' : Program}

/-- Nodes that correspond below a position have acts that correspond. -/
theorem exprSchedule_corresponds (hp : p.arena.Acyclic) (hp' : p'.arena.Acyclic)
    (hsize : p'.arena.size = p.arena.size) (id : NodeId)
    (hnodes : ∀ d, Relation.ReflTransGen p.arena.Operand d id →
      Option.Rel (C.Nodes p.names.text p'.names.text) (p.arena.get? d) (p'.arena.get? d)) :
    List.Forall₂ (C.Acts p.names.text p'.names.text) (p.exprSchedule id) (p'.exprSchedule id) := by
  induction id using hp.induct with
  | missing id hget =>
    have hnode := hnodes id .refl
    rw [exprSchedule, exprSchedule, Arena.tree_eq hp, Arena.tree_eq hp', hget, hsize]
    rw [hget] at hnode
    generalize p'.arena.get? id = found at hnode ⊢
    rcases hnode with - | -
    exact .cons (.plain rfl) .nil
  | node id form line hget ih =>
    -- What lies below an operand lies below the node.
    have hbelow : ∀ child ∈ form.children, List.Forall₂ (C.Acts p.names.text p'.names.text)
        (p.arena.tree child).acts (p'.arena.tree child).acts := fun child hchild =>
      ih child hchild fun d hd => hnodes d (hd.tail ⟨_, hget, hchild⟩)
    have hnode := hnodes id .refl
    rw [exprSchedule, exprSchedule, Arena.tree_eq hp, Arena.tree_eq hp', hget]
    rw [hget] at hnode
    generalize p'.arena.get? id = found at hnode ⊢
    rcases hnode with @⟨_, ⟨form', line'⟩, hform, hline⟩ | -
    obtain rfl : line = line' := hline
    rcases hform with hvalue | inner | ⟨op, operand⟩ | ⟨op, left, right⟩ | ⟨hname, htext⟩ |
      ⟨value, hname, htext⟩
    · exact .cons (.literal hvalue) .nil
    · exact hbelow inner (by simp)
    · exact List.rel_append (hbelow operand (by simp)) (.cons (.plain rfl) .nil)
    · exact List.rel_append (hbelow left (by simp))
        (List.rel_append (hbelow right (by simp)) (.cons (.plain rfl) .nil))
    · exact .cons (.read line hname htext) .nil
    · exact List.rel_append (hbelow value (by simp)) (.cons (.assign line hname htext) .nil)

end Program

/-- The expression of a leaf has corresponding acts in the two programs, and what the leaf declares
is known. -/
structure Correspondence.Leaf (C : Correspondence) (p p' : Program) (leaf : Stmt) : Prop where
  root : ∀ id, leaf.root? = some id → List.Forall₂ (C.Acts p.names.text p'.names.text)
    (p.exprSchedule id) (p'.exprSchedule id)
  declared : ∀ name ∈ leaf.declared, C.known name

namespace Program

variable {C : Correspondence} {p p' : Program}

mutual

theorem stmtSchedule_corresponds : (stmt : Stmt) → (∀ leaf ∈ stmt.leaves, C.Leaf p p' leaf) →
    List.Forall₂ (C.Acts p.names.text p'.names.text) (p.stmtSchedule stmt)
      (p'.stmtSchedule (stmt.rename C.rename))
  | .expression id line, h => by
    rw [Stmt.leaves] at h
    have hleaf := h _ (List.mem_singleton.2 rfl)
    rw [Stmt.rename, stmtSchedule, stmtSchedule, Arena.stmtTree, Arena.stmtTree, StmtTree.acts,
      StmtTree.acts]
    exact List.rel_append (hleaf.root id rfl) (.cons (.plain rfl) .nil)
  | .print id line, h => by
    rw [Stmt.leaves] at h
    have hleaf := h _ (List.mem_singleton.2 rfl)
    rw [Stmt.rename, stmtSchedule, stmtSchedule, Arena.stmtTree, Arena.stmtTree, StmtTree.acts,
      StmtTree.acts]
    exact List.rel_append (hleaf.root id rfl) (.cons (.plain rfl) .nil)
  | .declare name init line, h => by
    rw [Stmt.leaves] at h
    have hleaf := h _ (List.mem_singleton.2 rfl)
    have hname : C.known name := hleaf.declared name (List.mem_singleton.2 rfl)
    rw [Stmt.rename, stmtSchedule, stmtSchedule, Arena.stmtTree, Arena.stmtTree]
    rcases init with _ | id
    · rw [Option.map_none, Option.map_none, StmtTree.acts, StmtTree.acts]
      exact .cons (.literal C.nil) (.cons (.declare hname) .nil)
    · rw [Option.map_some, Option.map_some, StmtTree.acts, StmtTree.acts]
      exact List.rel_append (hleaf.root id rfl) (.cons (.declare hname) .nil)
  | .block body line, h => by
    rw [Stmt.leaves] at h
    rw [Stmt.rename, stmtSchedule_block, stmtSchedule_block]
    exact .cons (.plain rfl)
      (List.rel_append (schedule_corresponds body h) (.cons (.plain rfl) .nil))

/-- Statements whose leaves correspond have acts that correspond. -/
theorem schedule_corresponds : (stmts : List Stmt) →
    (∀ leaf ∈ Stmt.leavesAll stmts, C.Leaf p p' leaf) →
    List.Forall₂ (C.Acts p.names.text p'.names.text) (p.schedule stmts)
      (p'.schedule (Stmt.renameAll C.rename stmts))
  | [], _ => .nil
  | stmt :: rest, h => by
    rw [Stmt.leavesAll, List.forall_mem_append] at h
    rw [Stmt.renameAll, schedule_cons, schedule_cons]
    exact List.rel_append (stmtSchedule_corresponds stmt h.1) (schedule_corresponds rest h.2)

end

/-! ## Runs that correspond -/

variable {st st' : State}

theorem evaluate_corresponds (hp : p.arena.Acyclic) (hp' : p'.arena.Acyclic) {id : NodeId}
    (hacts : List.Forall₂ (C.Acts p.names.text p'.names.text) (p.exprSchedule id)
      (p'.exprSchedule id)) (hst : C.States st st') :
    C.Outcomes C.values (p.evaluate id st) (p'.evaluate id st') := by
  -- The value of an expression is what its acts leave on top.
  have htop : ∀ q : Program, q.arena.Acyclic → ∀ st, q.evaluate id st =
      (q.performAll (q.exprSchedule id) .empty st).andThen fun w st => .done w.top st := by
    intro q hq st
    have hrun := performAll_exprSchedule hq id [] .empty st
    rw [List.append_nil] at hrun
    rw [hrun]
    obtain ⟨halt | v, last⟩ := q.evaluate id st <;> rfl
  rw [htop p hp, htop p' hp']
  refine (performAll_corresponds hacts .empty hst).1.andThen fun w w' st st' hw hst => ?_
  exact .ok hw.top hst

/-- Runs from the outside correspond if their schedules do. -/
theorem corresponds_of_forget {acts acts' : List Act}
    (hacts : List.Forall₂ (C.Acts p.names.text p'.names.text) acts acts') (hst : C.States st st')
    {o o' : Outcome Unit} (ho : o.forget = (p.performAll acts .empty st).forget)
    (ho' : o'.forget = (p'.performAll acts' .empty st').forget) : C.Outcomes (· = ·) o o' := by
  rw [Outcome.forget_unit] at ho ho'
  rw [ho, ho']
  refine (performAll_corresponds hacts .empty hst).1.andThen fun _ _ st st' _ hst => ?_
  exact .ok rfl hst

/-- A run from the outside leaks if its schedule does. -/
theorem leaked_of_forget {acts : List Act} {o : Outcome Unit}
    (ho : o.forget = (p.performAll acts .empty st).forget)
    (h : C.Leaked (p.performAll acts .empty st)) : C.Leaked o := by
  obtain ⟨fault, line, hfault, hresult⟩ := h
  rw [Outcome.forget_unit] at ho
  refine ⟨fault, line, hfault, ?_⟩
  rw [ho]
  generalize p.performAll acts .empty st = performed at hresult ⊢
  obtain ⟨_ | w, last⟩ := performed <;> cases hresult
  rfl

/-- Unless one of two programs leaks, they execute acts that correspond one by one. -/
theorem executed_corresponds (hp : p.arena.Acyclic) (hp' : p'.arena.Acyclic)
    {stmts stmts' : List Stmt}
    (hacts : List.Forall₂ (C.Acts p.names.text p'.names.text) (p.schedule stmts)
      (p'.schedule stmts')) (hst : C.States st st')
    (hleak : ¬ C.Leaked (p.interpret stmts st)) (hleak' : ¬ C.Leaked (p'.interpret stmts' st')) :
    List.Forall₂ (C.Acts p.names.text p'.names.text) (p.executed (p.schedule stmts) st)
      (p'.executed (p'.schedule stmts') st') := by
  have hrun := executeAll_eq_performAll hp stmts (st.record (.started stmts.length))
  have hrun' := executeAll_eq_performAll hp' stmts' (st'.record (.started stmts'.length))
  rw [Correspondence.Leaked, result_interpret] at hleak hleak'
  rw [← executed_record p _ st (.started stmts.length),
    ← executed_record p' _ st' (.started stmts'.length)]
  obtain hfirst | hsecond | hsame := (performAll_corresponds hacts .empty
    (hst.record (.started stmts.length) (.started stmts'.length))).2
  · exact absurd (leaked_of_forget hrun hfirst) hleak
  · exact absurd (leaked_of_forget hrun' hsecond) hleak'
  · rw [executed, executed, hsame]
    exact List.forall₂_take _ hacts

theorem interpret_corresponds (hp : p.arena.Acyclic) (hp' : p'.arena.Acyclic)
    {stmts stmts' : List Stmt}
    (hacts : List.Forall₂ (C.Acts p.names.text p'.names.text) (p.schedule stmts)
      (p'.schedule stmts')) (hst : C.States st st') :
    C.Outcomes (· = ·) (p.interpret stmts st) (p'.interpret stmts' st') := by
  have hrun := corresponds_of_forget hacts
    (hst.record (.started stmts.length) (.started stmts'.length))
    (executeAll_eq_performAll hp stmts _) (executeAll_eq_performAll hp' stmts' _)
  rw [interpret, interpret]
  generalize p.executeAll stmts _ = o at hrun ⊢
  generalize p'.executeAll stmts' _ = o' at hrun ⊢
  rcases hrun with ⟨-, hst⟩ | ⟨halt, hst⟩ | ⟨line, st, -, hleak⟩ | ⟨line, -, st, hleak⟩
  · exact .ok rfl hst
  · rcases halt with e | ⟨size, id⟩ | _
    · exact .error _ ⟨hst.env, C.report e.text hst.output⟩
    · exact .error _ hst
    · exact .error _ hst
  · exact .leaksFirst line _ _ hleak
  · exact .leaksSecond line _ _ hleak

end Program

end ScriptCore
