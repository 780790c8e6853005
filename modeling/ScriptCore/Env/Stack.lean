/-
An environment seen as a stack of finite maps, innermost scope first.

The view forgets positions and links. On linked environments each operation acts on it as its name
says: a scope is pushed in front, popped from the front unless it is the only one, and a name is
looked up or assigned in the first map that has it. Nobody who reasons through the view has to
follow a parent link again.
-/
import ScriptCore.Env

set_option autoImplicit false

namespace ScriptCore

/-- The bindings of one scope. -/
abbrev Bindings := Std.TreeMap Name Value

/-- The bindings of the scopes in reach, innermost first. -/
abbrev ScopeStack := List Bindings

namespace ScopeStack

/-- Remove the innermost scope, unless it is the only one. -/
def pop : ScopeStack → ScopeStack
  | _ :: next :: rest => next :: rest
  | stack => stack

/-- Bind a name in the innermost scope. -/
def define (name : Name) (value : Value) : ScopeStack → ScopeStack
  | [] => []
  | scope :: rest => scope.insert name value :: rest

/-- The value in the first scope that has the name. -/
def lookup? (name : Name) (stack : ScopeStack) : Option Value := stack.findSome? (·[name]?)

/-- The stack with a new value in the first scope that has the name, if one has it. -/
def assign? (name : Name) (value : Value) : ScopeStack → Option ScopeStack
  | [] => none
  | scope :: rest =>
    if scope.contains name then some (scope.insert name value :: rest)
    else (assign? name value rest).map (scope :: ·)

end ScopeStack

namespace Env

/-- The bindings of the scopes below a position, the last one first. -/
def stackBelow (env : Env) (n : Nat) : ScopeStack :=
  ((env.scopes.toList.take n).map (·.bindings)).reverse

/-- The bindings of all scopes, innermost first. -/
def stack (env : Env) : ScopeStack := (env.scopes.toList.map (·.bindings)).reverse

theorem stackBelow_depth (env : Env) : env.stackBelow env.depth = env.stack := by
  rw [stackBelow, stack, depth, List.take_of_length_le (by simp)]

theorem stackBelow_succ {env : Env} {i : Nat} {scope : Scope} (h : env.scope? i = some scope) :
    env.stackBelow (i + 1) = scope.bindings :: env.stackBelow i := by
  rw [scope?, ← Array.getElem?_toList] at h
  rw [stackBelow, stackBelow, List.take_add_one, h]
  simp

theorem scope?_lt {env : Env} {i : Nat} (h : i < env.depth) : ∃ scope, env.scope? i = some scope :=
  ⟨env.scopes[i], Array.getElem?_eq_getElem h⟩

/-! ## Opening, closing and binding -/

@[simp] theorem stack_new : new.stack = [∅] := rfl

@[simp] theorem length_stack (env : Env) : env.stack.length = env.depth := by
  simp [stack, depth]

@[simp] theorem stack_push (env : Env) : env.push.stack = ∅ :: env.stack := by
  simp [stack, push, Scope.empty]

theorem stack_pop {env : Env} (h : env.Linked) : env.pop.stack = env.stack.pop := by
  obtain ⟨scope, hs⟩ := scope?_lt (show env.current < env.depth by rw [depth, h.size_eq]; omega)
  have hparent := h.parent_eq _ _ hs
  have hstack : env.stack = scope.bindings :: env.stackBelow env.current := by
    rw [← stackBelow_succ hs, ← h.size_eq, ← depth, stackBelow_depth]
  rw [hstack, pop, hs, Option.bind_some, hparent]
  cases hc : env.current with
  | zero =>
    -- The root alone: nothing is removed on either side.
    rw [hc] at hstack
    simpa [outer, ScopeStack.pop, stackBelow] using hstack
  | succ c =>
    obtain ⟨next, hn⟩ := scope?_lt (show c < env.depth by rw [depth, h.size_eq]; omega)
    rw [stackBelow_succ hn, ScopeStack.pop, ← stackBelow_succ hn]
    simp [outer, stack, stackBelow, List.map_take]

/-- Binding at a position below the given one is seen in the stack below it, and binding at or
above it is not. -/
theorem stackBelow_bindAt_of_le {env : Env} {i n : Nat} (h : n ≤ i) (name : Name) (value : Value) :
    (env.bindAt i name value).stackBelow n = env.stackBelow n := by
  rw [stackBelow, stackBelow, bindAt]
  congr 2
  apply List.ext_getElem?
  intro k
  rw [List.getElem?_take, List.getElem?_take, Array.getElem?_toList, Array.getElem?_toList]
  split
  · rw [Array.getElem?_modify, if_neg (by omega)]
  · rfl

theorem scope?_bindAt_self {env : Env} {i : Nat} {scope : Scope} (h : env.scope? i = some scope)
    (name : Name) (value : Value) :
    (env.bindAt i name value).scope? i = some (scope.bind name value) := by
  rw [scope?] at *
  rw [bindAt, Array.getElem?_modify, if_pos rfl, h, Option.map_some]

theorem scope?_bindAt_of_ne {env : Env} {i k : Nat} (h : i ≠ k) (name : Name) (value : Value) :
    (env.bindAt i name value).scope? k = env.scope? k := by
  rw [scope?, scope?, bindAt, Array.getElem?_modify, if_neg h]

@[simp] theorem depth_bindAt (env : Env) (i : Nat) (name : Name) (value : Value) :
    (env.bindAt i name value).depth = env.depth := by
  simp [depth, bindAt]

theorem stack_define {env : Env} (h : env.Linked) (name : Name) (value : Value) :
    (env.define name value).stack = env.stack.define name value := by
  obtain ⟨scope, hs⟩ := scope?_lt (show env.current < env.depth by rw [depth, h.size_eq]; omega)
  have hdepth : env.depth = env.current + 1 := h.size_eq
  rw [define, ← stackBelow_depth, depth_bindAt, ← stackBelow_depth env, hdepth,
    stackBelow_succ (scope?_bindAt_self hs name value), stackBelow_bindAt_of_le (Nat.le_refl _),
    stackBelow_succ hs]
  rfl

/-! ## The number of scopes -/

theorem depth_push (env : Env) : env.push.depth = env.depth + 1 := by
  rw [depth, push, Array.size_push, depth]

/-- Closing a scope that is not the root takes the last scope off. -/
theorem pop_eq {env : Env} (h : env.Linked) {n : Nat} (hdepth : env.depth = n + 2) :
    env.pop = ⟨env.scopes.shrink (n + 1), n⟩ := by
  have hcurrent : env.current = n + 1 := by
    have hsize : env.depth = env.current + 1 := h.size_eq
    omega
  obtain ⟨scope, hs⟩ := scope?_lt (show env.current < env.depth by omega)
  rw [pop, hs, Option.bind_some, h.parent_eq _ _ hs, hcurrent]
  rfl

theorem depth_pop {env : Env} (h : env.Linked) {n : Nat} (hdepth : env.depth = n + 2) :
    env.pop.depth = n + 1 := by
  have hsize : env.scopes.size = n + 2 := hdepth
  rw [pop_eq h hdepth, depth, Array.size_shrink, hsize]
  exact Nat.min_eq_left (Nat.le_succ _)

theorem depth_define (env : Env) (name : Name) (value : Value) :
    (env.define name value).depth = env.depth := depth_bindAt env _ name value

theorem depth_of_assign {env env' : Env} {name : Name} {value : Value} {line : Nat}
    (h : env.assign name value line = .ok env') : env'.depth = env.depth := by
  rw [assign] at h
  split at h
  · cases h
    exact depth_bindAt env _ name value
  · cases h

/-! ## Following the links -/

/-- A step of the search at a position that is in range: the scope there, or the one before it. -/
theorem resolveFrom_succ {env : Env} (h : env.Linked) {i : Nat} {scope : Scope}
    (hs : env.scope? i = some scope) (name : Name) (links : Nat) :
    env.resolveFrom name (links + 1) i =
      if scope.binds name then some i
      else (outer i).bind (env.resolveFrom name links) := by
  rw [resolveFrom, hs]
  simp only [h.parent_eq _ _ hs]
  cases outer i <;> rfl

/-- The search never goes inwards. -/
theorem resolveFrom_le {env : Env} (h : env.Linked) {name : Name} {links i k : Nat}
    (hk : env.resolveFrom name links i = some k) : k ≤ i := by
  induction links generalizing i with
  | zero => simp [resolveFrom] at hk
  | succ links ih =>
    cases hs : env.scope? i with
    | none => simp [resolveFrom, hs] at hk
    | some scope =>
      rw [resolveFrom_succ h hs] at hk
      split at hk
      · exact Nat.le_of_eq (Option.some.inj hk).symm
      · cases i with
        | zero => simp [outer] at hk
        | succ i => exact Nat.le_succ_of_le (ih hk)

/-- With a link for every scope to pass, the search finds what the stack below the position
holds. -/
theorem lookup_resolveFrom {env : Env} (h : env.Linked) (name : Name) {i links : Nat}
    (hi : i < env.depth) (hl : i < links) :
    ((env.resolveFrom name links i).bind fun k => (env.scope? k).bind (·.value? name)) =
      (env.stackBelow (i + 1)).lookup? name := by
  induction i generalizing links with
  | zero =>
    obtain ⟨scope, hs⟩ := scope?_lt hi
    obtain ⟨links, rfl⟩ := Nat.exists_eq_add_one_of_ne_zero (Nat.ne_of_gt hl)
    rw [resolveFrom_succ h hs, stackBelow_succ hs, Scope.binds_eq_isSome, Scope.value?]
    cases hv : scope.bindings[name]? <;>
      simp [ScopeStack.lookup?, stackBelow, outer, hv, hs, Scope.value?]
  | succ i ih =>
    obtain ⟨scope, hs⟩ := scope?_lt hi
    obtain ⟨links, rfl⟩ := Nat.exists_eq_add_one_of_ne_zero (Nat.ne_of_gt (Nat.zero_lt_of_lt hl))
    rw [resolveFrom_succ h hs, stackBelow_succ hs, Scope.binds_eq_isSome, Scope.value?]
    cases hv : scope.bindings[name]? with
    | some value => simp [ScopeStack.lookup?, hv, hs, Scope.value?]
    | none =>
      have hrest := @ih links (by omega) (by omega)
      simpa [ScopeStack.lookup?, outer, hv] using hrest

/-- Looking a name up is looking it up in the stack. -/
theorem lookup?_eq_stack {env : Env} (h : env.Linked) (name : Name) :
    env.lookup? name = env.stack.lookup? name := by
  have hdepth : env.depth = env.current + 1 := h.size_eq
  rw [lookup?, resolve?, lookup_resolveFrom h name (by omega) (by omega), ← hdepth,
    stackBelow_depth]

/-- Where the scope at a position binds the name, both sides assign there. -/
theorem stackBelow_bindAt_succ {env : Env} {i : Nat} {scope : Scope}
    (hs : env.scope? i = some scope) {name : Name} (hb : scope.binds name = true) (value : Value) :
    some ((env.bindAt i name value).stackBelow (i + 1)) =
      (env.stackBelow (i + 1)).assign? name value := by
  rw [Scope.binds] at hb
  rw [stackBelow_succ (scope?_bindAt_self hs name value), stackBelow_succ hs,
    stackBelow_bindAt_of_le (Nat.le_refl _), ScopeStack.assign?, if_pos hb]
  rfl

/-- The search for an assignment stops at the map that the stack assigns to. -/
theorem assign_resolveFrom {env : Env} (h : env.Linked) (name : Name) (value : Value)
    {i links : Nat} (hi : i < env.depth) (hl : i < links) :
    ((env.resolveFrom name links i).map fun k =>
        (env.bindAt k name value).stackBelow (i + 1)) =
      (env.stackBelow (i + 1)).assign? name value := by
  induction i generalizing links with
  | zero =>
    obtain ⟨scope, hs⟩ := scope?_lt hi
    obtain ⟨links, rfl⟩ := Nat.exists_eq_add_one_of_ne_zero (Nat.ne_of_gt hl)
    rw [resolveFrom_succ h hs]
    by_cases hb : scope.binds name = true
    · rw [if_pos hb, Option.map_some, stackBelow_bindAt_succ hs hb]
    · rw [if_neg hb, stackBelow_succ hs, ScopeStack.assign?, ← Scope.binds, if_neg hb]
      rfl
  | succ i ih =>
    obtain ⟨scope, hs⟩ := scope?_lt hi
    obtain ⟨links, rfl⟩ := Nat.exists_eq_add_one_of_ne_zero (Nat.ne_of_gt (Nat.zero_lt_of_lt hl))
    rw [resolveFrom_succ h hs]
    by_cases hb : scope.binds name = true
    · rw [if_pos hb, Option.map_some, stackBelow_bindAt_succ hs hb]
    · rw [if_neg hb, stackBelow_succ hs, ScopeStack.assign?, ← Scope.binds, if_neg hb,
        ← @ih links (by omega) (by omega), outer, Option.bind_some, Option.map_map]
      -- The scope found lies further out, so the scope at this position is the old one.
      cases hk : env.resolveFrom name links i with
      | none => rfl
      | some k =>
        have hle := resolveFrom_le h hk
        have hsame := (scope?_bindAt_of_ne (show k ≠ i + 1 by omega) name value).trans hs
        rw [Option.map_some, Option.map_some, stackBelow_succ hsame]
        rfl

/-- Assigning a name assigns it in the stack, and fails exactly when the stack does. -/
theorem assign_eq_stack {env : Env} (h : env.Linked) (name : Name) (value : Value) (line : Nat) :
    (env.assign name value line).map stack =
      match env.stack.assign? name value with
      | some stack => .ok stack
      | none => .error ⟨name, line⟩ := by
  have hdepth : env.depth = env.current + 1 := h.size_eq
  have hall := @assign_resolveFrom env h name value env.current env.depth (by omega) (by omega)
  rw [← hdepth, stackBelow_depth] at hall
  rw [← hall, assign, resolve?]
  cases env.resolveFrom name env.depth env.current with
  | none => rfl
  | some k =>
    rw [Option.map_some, ← depth_bindAt env k name value, stackBelow_depth]
    rfl

end Env

end ScriptCore
