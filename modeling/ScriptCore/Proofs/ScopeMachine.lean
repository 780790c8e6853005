/-
The environment as a machine, and the stack of maps that it stands for.

An environment is an array of scopes, a link from each scope to its parent, and the position of
the current scope. A client sees none of that: it applies operations and reads their answers. The
reference machine here answers the same operations from a nonempty list of finite maps, the
innermost one first, and has no links that could be wrong.

The two machines answer alike, whatever the client does (`answers_eq_stack`). One operation is
compared in `perform_eq`, on the operations' own lemmas about `Env.stack`; a run is an induction
over that. Nothing is lost in the view: the links of a linked environment can be written down again
from its maps alone (`Linked.eq_ofStack`).
-/
import ScriptCore.Env.Stack

set_option autoImplicit false

namespace ScriptCore

/-- An operation on an environment. -/
inductive EnvOp where
  | push
  | pop
  | define (name : Name) (value : Value)
  | assign (name : Name) (value : Value) (line : Nat)
  | lookup (name : Name)
  | get (name : Name) (line : Nat)
  | depth
  | current
  | scope (index : Nat)

/-- What is seen of a scope: the position of its parent, and which names it binds itself. -/
structure ScopeFacts where
  parent : Option Nat
  binds : Name → Bool

/-- The answer to an operation. -/
inductive EnvAnswer where
  | nothing
  | position (index : Nat)
  | count (scopes : Nat)
  | found (value : Option Value)
  | got (result : Except Unbound Value)
  | assigned (result : Except Unbound Unit)
  | scope (facts : Option ScopeFacts)

namespace EnvOp

/-- Apply operations in order, from a state of any machine, and collect the answers. -/
def runAll {σ : Type} (perform : σ → EnvOp → EnvAnswer × σ) : List EnvOp → σ → List EnvAnswer × σ
  | [], s => ([], s)
  | op :: ops, s =>
    let first := perform s op
    let rest := runAll perform ops first.2
    (first.1 :: rest.1, rest.2)

end EnvOp

/-- An operation on the array of linked scopes. -/
def Env.perform (env : Env) : EnvOp → EnvAnswer × Env
  | .push => (.position env.push.current, env.push)
  | .pop => (.nothing, env.pop)
  | .define name value => (.nothing, env.define name value)
  | .assign name value line =>
    match env.assign name value line with
    | .ok next => (.assigned (.ok ()), next)
    | .error unbound => (.assigned (.error unbound), env)
  | .lookup name => (.found (env.lookup? name), env)
  | .get name line => (.got (env.get name line), env)
  | .depth => (.count env.depth, env)
  | .current => (.position env.current, env)
  | .scope i => (.scope ((env.scope? i).map fun scope => ⟨scope.parent, scope.binds⟩), env)

/-- The same operation on a list of maps. A scope is named by its distance from the root, and its
parent is the scope before it. -/
def ScopeStack.perform (stack : ScopeStack) : EnvOp → EnvAnswer × ScopeStack
  | .push => (.position stack.length, ∅ :: stack)
  | .pop => (.nothing, stack.pop)
  | .define name value => (.nothing, stack.define name value)
  | .assign name value line =>
    match stack.assign? name value with
    | some next => (.assigned (.ok ()), next)
    | none => (.assigned (.error ⟨name, line⟩), stack)
  | .lookup name => (.found (stack.lookup? name), stack)
  | .get name line =>
    match stack.lookup? name with
    | some value => (.got (.ok value), stack)
    | none => (.got (.error ⟨name, line⟩), stack)
  | .depth => (.count stack.length, stack)
  | .current => (.position (stack.length - 1), stack)
  | .scope i =>
    (.scope (stack.reverse[i]?.map fun bindings => ⟨Env.outer i, bindings.contains⟩), stack)

namespace Env

/-! ## The links carry no information -/

/-- The environment with the given maps, each scope linked to the one before it. -/
def ofStack (stack : ScopeStack) : Env where
  scopes := (stack.reverse.mapIdx fun i bindings => ⟨bindings, outer i⟩).toArray
  current := stack.length - 1

/-- The map of the scope at a position, counted from the root. -/
theorem bindings_scope? (env : Env) (i : Nat) :
    (env.scope? i).map (·.bindings) = env.stack.reverse[i]? := by
  rw [scope?, stack, List.reverse_reverse, List.getElem?_map, Array.getElem?_toList]

/-- In a linked environment a scope is its map and the parent its position calls for. -/
theorem Linked.scope?_eq {env : Env} (h : env.Linked) (i : Nat) :
    env.scope? i = env.stack.reverse[i]?.map fun bindings => ⟨bindings, outer i⟩ := by
  rw [← bindings_scope?, Option.map_map]
  rcases hs : env.scope? i with _ | scope
  · rfl
  · rw [Option.map_some, Function.comp_apply, ← h.parent_eq i scope hs]

/-- A linked environment is determined by its maps. -/
theorem Linked.eq_ofStack {env : Env} (h : env.Linked) : env = ofStack env.stack := by
  have hscopes : env.scopes = (ofStack env.stack).scopes := by
    apply Array.ext_getElem?
    intro i
    have hlist : (ofStack env.stack).scopes[i]? =
        (env.stack.reverse.mapIdx fun i bindings => (⟨bindings, outer i⟩ : Scope))[i]? :=
      List.getElem?_toArray
    rw [hlist, List.getElem?_mapIdx]
    exact h.scope?_eq i
  have hcurrent : env.current = (ofStack env.stack).current := by
    rw [ofStack, length_stack, depth, h.size_eq, Nat.add_sub_cancel]
  calc env = ⟨env.scopes, env.current⟩ := rfl
    _ = ofStack env.stack := by rw [hscopes, hcurrent]

theorem stack_ne_nil {env : Env} (h : env.Linked) : env.stack ≠ [] := by
  rw [← List.length_pos_iff, length_stack]
  exact h.depth_pos

/-! ## One operation -/

/-- An operation answers as it does on the maps, and leaves a linked environment with the maps it
leaves there. -/
theorem perform_eq {env : Env} (h : env.Linked) (op : EnvOp) :
    (env.perform op).1 = (env.stack.perform op).1 ∧ (env.perform op).2.Linked ∧
      (env.perform op).2.stack = (env.stack.perform op).2 := by
  have hcurrent : env.current = env.stack.length - 1 := by
    rw [length_stack, depth, h.size_eq, Nat.add_sub_cancel]
  cases op with
  | push => exact ⟨by rw [perform, ScopeStack.perform, length_stack]; rfl, h.push, stack_push env⟩
  | pop => exact ⟨rfl, h.pop, stack_pop h⟩
  | define name value => exact ⟨rfl, h.define name value, stack_define h name value⟩
  | assign name value line =>
    have hassign := assign_eq_stack h name value line
    rw [perform, ScopeStack.perform]
    -- Both sides fail or both succeed; the mixed cases contradict `assign_eq_stack`.
    rcases ha : env.assign name value line with unbound | next <;>
      rcases hs : env.stack.assign? name value with _ | stack <;>
      simp only [ha, hs, Except.map, reduceCtorEq, Except.ok.injEq, Except.error.injEq] at hassign
    · subst hassign
      exact ⟨rfl, h, rfl⟩
    · exact ⟨rfl, h.assign ha, hassign⟩
  | lookup name =>
    exact ⟨by rw [perform, ScopeStack.perform, lookup?_eq_stack h], h, rfl⟩
  | get name line =>
    rw [perform, ScopeStack.perform, Env.get, lookup?_eq_stack h]
    rcases env.stack.lookup? name with _ | value
    · exact ⟨rfl, h, rfl⟩
    · exact ⟨rfl, h, rfl⟩
  | depth => exact ⟨by rw [perform, ScopeStack.perform, length_stack], h, rfl⟩
  | current => exact ⟨by rw [perform, ScopeStack.perform, hcurrent], h, rfl⟩
  | scope i =>
    refine ⟨?_, h, rfl⟩
    rw [perform, ScopeStack.perform, h.scope?_eq i, Option.map_map]
    rfl

/-! ## All operations -/

/-- A run of operations answers as it does on the maps. -/
theorem runAll_perform_eq (ops : List EnvOp) {env : Env} (h : env.Linked) :
    (EnvOp.runAll perform ops env).1 = (EnvOp.runAll ScopeStack.perform ops env.stack).1 ∧
      (EnvOp.runAll perform ops env).2.Linked ∧
      (EnvOp.runAll perform ops env).2.stack =
        (EnvOp.runAll ScopeStack.perform ops env.stack).2 := by
  induction ops generalizing env with
  | nil => exact ⟨rfl, h, rfl⟩
  | cons op ops ih =>
    obtain ⟨hanswer, hlinked, hstack⟩ := perform_eq h op
    obtain ⟨hanswers, hlast, hfinal⟩ := ih hlinked
    rw [hstack] at hanswers hfinal
    refine ⟨?_, hlast, hfinal⟩
    rw [EnvOp.runAll, EnvOp.runAll]
    exact List.cons_eq_cons.2 ⟨hanswer, hanswers⟩

/-- An environment that operations can lead to. -/
def Reachable (env : Env) : Prop := ∃ ops, (EnvOp.runAll perform ops new).2 = env

theorem reachable_new : Reachable new := ⟨[], rfl⟩

theorem Reachable.linked {env : Env} (h : env.Reachable) : env.Linked := by
  obtain ⟨ops, rfl⟩ := h
  exact (runAll_perform_eq ops linked_new).2.1

/-- **The scopes are a stack of finite maps.** From the root alone, every sequence of operations
gets the answers that a nonempty list of maps gives, and what it ends in is that list with its
links. -/
theorem answers_eq_stack (ops : List EnvOp) :
    (EnvOp.runAll perform ops new).1 = (EnvOp.runAll ScopeStack.perform ops [∅]).1 ∧
      (EnvOp.runAll ScopeStack.perform ops [∅]).2 ≠ [] ∧
      (EnvOp.runAll perform ops new).2 = ofStack (EnvOp.runAll ScopeStack.perform ops [∅]).2 := by
  obtain ⟨hanswers, hlinked, hstack⟩ := runAll_perform_eq ops linked_new
  rw [stack_new] at hanswers hstack
  rw [← hstack]
  exact ⟨hanswers, stack_ne_nil hlinked, hlinked.eq_ofStack⟩

end Env

end ScriptCore
