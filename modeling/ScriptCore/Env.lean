/-
Environments: the live scopes of a run.

Scopes stand in one array and point to their parent by position. Blocks open and close scopes
innermost first, so the array is a stack in practice: the current scope is its last entry, and
the parent of each scope is the one before it. `Linked` states this, and every operation keeps
it. The operations themselves only follow the links, as far as the links lead.
-/
import ScriptCore.Name
import ScriptCore.Value

set_option autoImplicit false

namespace ScriptCore

/-- One scope: its own bindings, and the position of the scope around it. -/
structure Scope where
  bindings : Std.TreeMap Name Value
  parent : Option Nat

namespace Scope

/-- A scope that binds nothing. -/
def empty (parent : Option Nat) : Scope := ⟨∅, parent⟩

/-- The scope itself binds the name; the scopes around it are not asked. -/
def binds (s : Scope) (name : Name) : Bool := s.bindings.contains name

/-- The value that the scope itself binds the name to. -/
def value? (s : Scope) (name : Name) : Option Value := s.bindings[name]?

/-- Bind a name, replacing the binding it had in this scope. -/
def bind (s : Scope) (name : Name) (value : Value) : Scope :=
  { s with bindings := s.bindings.insert name value }

@[simp] theorem parent_bind (s : Scope) (name : Name) (value : Value) :
    (s.bind name value).parent = s.parent := rfl

@[simp] theorem value?_empty (parent : Option Nat) (name : Name) :
    (empty parent).value? name = none := by
  simp [empty, value?]

theorem value?_bind (s : Scope) (name other : Name) (value : Value) :
    (s.bind name value).value? other = if name = other then some value else s.value? other := by
  simp [bind, value?, Std.TreeMap.getElem?_insert, Std.LawfulEqCmp.compare_eq_iff_eq]

theorem binds_eq_isSome (s : Scope) (name : Name) : s.binds name = (s.value? name).isSome := by
  simp [binds, value?, Std.TreeMap.isSome_getElem?_eq_contains]

end Scope

/-- A name that no scope in reach binds, and the line that asked for it. -/
structure Unbound where
  name : Name
  line : Nat
deriving DecidableEq, Repr

/-- The live scopes and the position of the current one. -/
structure Env where
  scopes : Array Scope
  current : Nat

namespace Env

/-- The root scope alone. -/
def new : Env := ⟨#[Scope.empty none], 0⟩

/-- The number of live scopes, counting the root. -/
def depth (env : Env) : Nat := env.scopes.size

/-- The scope at a position. -/
def scope? (env : Env) (i : Nat) : Option Scope := env.scopes[i]?

/-- Open a scope inside the current one. -/
def push (env : Env) : Env where
  scopes := env.scopes.push (Scope.empty (some env.current))
  current := env.scopes.size

/-- Close the current scope. The root has no parent to go back to and stays. -/
def pop (env : Env) : Env :=
  match (env.scope? env.current).bind (·.parent) with
  | some parent => ⟨env.scopes.shrink env.current, parent⟩
  | none => env

/-- Bind a name in the scope at a position. -/
def bindAt (env : Env) (i : Nat) (name : Name) (value : Value) : Env :=
  { env with scopes := env.scopes.modify i (·.bind name value) }

/-- Bind a name in the current scope. -/
def define (env : Env) (name : Name) (value : Value) : Env := env.bindAt env.current name value

/-- The innermost scope that binds the name, from a position outwards, following at most the
given number of links. -/
def resolveFrom (env : Env) (name : Name) : Nat → Nat → Option Nat
  | 0, _ => none
  | links + 1, i =>
    match env.scope? i with
    | none => none
    | some scope =>
      if scope.binds name then some i
      else
        match scope.parent with
        | none => none
        | some parent => resolveFrom env name links parent

/-- The innermost scope that binds the name. There are no more links to follow than scopes. -/
def resolve? (env : Env) (name : Name) : Option Nat :=
  env.resolveFrom name env.depth env.current

/-- The value of a name, if a scope in reach binds it. -/
def lookup? (env : Env) (name : Name) : Option Value :=
  (env.resolve? name).bind fun i => (env.scope? i).bind (·.value? name)

/-- The value of a name. -/
def get (env : Env) (name : Name) (line : Nat) : Except Unbound Value :=
  match env.lookup? name with
  | some value => .ok value
  | none => .error ⟨name, line⟩

/-- Give a name a new value in the innermost scope that binds it. Never makes a binding. -/
def assign (env : Env) (name : Name) (value : Value) (line : Nat) : Except Unbound Env :=
  match env.resolve? name with
  | some i => .ok (env.bindAt i name value)
  | none => .error ⟨name, line⟩

/-- The scopes in reach with their positions, from a position outwards, following at most the
given number of links. -/
def chainFrom (env : Env) : Nat → Nat → List (Nat × Scope)
  | 0, _ => []
  | links + 1, i =>
    match env.scope? i with
    | none => []
    | some scope =>
      (i, scope) ::
        match scope.parent with
        | none => []
        | some parent => chainFrom env links parent

/-- The scopes in reach, innermost first. -/
def chain (env : Env) : List (Nat × Scope) := env.chainFrom env.depth env.current

/-! ## The links form a stack -/

/-- The parent of the scope at a position: the position before it, and none for the root. -/
def outer : Nat → Option Nat
  | 0 => none
  | i + 1 => some i

/-- The current scope is the last one, and each scope points to the one before it. -/
structure Linked (env : Env) : Prop where
  size_eq : env.scopes.size = env.current + 1
  parent_eq : ∀ i scope, env.scope? i = some scope → scope.parent = outer i

theorem Linked.depth_pos {env : Env} (h : env.Linked) : 0 < env.depth := by
  rw [depth, h.size_eq]
  exact Nat.succ_pos _

theorem linked_new : Linked new where
  size_eq := rfl
  parent_eq i scope h := by
    cases i with
    | zero => simp [scope?, new] at h; subst h; rfl
    | succ i => simp [scope?, new] at h

theorem Linked.push {env : Env} (h : env.Linked) : env.push.Linked where
  size_eq := by simp [Env.push]
  parent_eq i scope hi := by
    simp only [scope?, Env.push, Array.getElem?_push] at hi
    split at hi
    · next heq =>
      simp only [Option.some.injEq] at hi
      subst hi heq
      simp [Scope.empty, h.size_eq, outer]
    · exact h.parent_eq i scope hi

theorem Linked.bindAt {env : Env} (h : env.Linked) (k : Nat) (name : Name) (value : Value) :
    (env.bindAt k name value).Linked where
  size_eq := by simp [Env.bindAt, h.size_eq]
  parent_eq i scope hi := by
    simp only [scope?, Env.bindAt, Array.getElem?_modify] at hi
    split at hi
    · simp only [Option.map_eq_some_iff] at hi
      obtain ⟨old, hold, rfl⟩ := hi
      exact h.parent_eq i old hold
    · exact h.parent_eq i scope hi

theorem Linked.pop {env : Env} (h : env.Linked) : env.pop.Linked := by
  simp only [Env.pop]
  split
  · next parent hp =>
    obtain ⟨scope, hs, hparent⟩ := Option.bind_eq_some_iff.1 hp
    have houter := h.parent_eq _ _ hs
    rw [hparent] at houter
    cases hc : env.current with
    | zero => simp [hc, outer] at houter
    | succ c =>
      simp only [hc, outer, Option.some.injEq] at houter
      subst houter
      refine ⟨by simp [h.size_eq, hc], fun i s hi => h.parent_eq i s ?_⟩
      rw [scope?, ← Array.getElem?_toList, Array.toList_shrink, List.getElem?_take] at hi
      split at hi
      · rwa [scope?, ← Array.getElem?_toList]
      · cases hi
  · exact h

theorem Linked.define {env : Env} (h : env.Linked) (name : Name) (value : Value) :
    (env.define name value).Linked := h.bindAt _ name value

theorem Linked.assign {env env' : Env} (h : env.Linked) {name : Name} {value : Value} {line : Nat}
    (ha : env.assign name value line = .ok env') : env'.Linked := by
  simp only [Env.assign] at ha
  split at ha
  · cases ha; exact h.bindAt _ name value
  · cases ha

end Env

end ScriptCore
