/-
Arenas without cycles.

The references of an arena may lead forward, be shared by several nodes or lead nowhere. All that
a run asks of them is that no chain of references comes back to its start. An arena is finite, so
such a chain also has a bounded length: it passes through each node at most once and may end in
one reference that leads nowhere.

The evaluator counts the references it follows, and `Acyclic.within` says that the count it starts
with is never used up. From there on the count is gone: `evaluate_eq` gives the value of a node by
the values of its operands, and `Acyclic.induct` is the induction that goes with it.
-/
import Mathlib.Logic.Relation
import Mathlib.Data.Finset.Card
import ScriptCore.Run.Machine

set_option autoImplicit false

namespace ScriptCore

namespace Arena

/-- The node at `parent` has `child` as an operand. -/
def Operand (a : Arena) (child parent : NodeId) : Prop :=
  ∃ node, a.get? parent = some node ∧ child ∈ node.form.children

/-- No chain of references returns to its start. -/
def Acyclic (a : Arena) : Prop := ∀ id, ¬ Relation.TransGen a.Operand id id

/-- Every chain of references from the position passes through fewer than `n` references. -/
def Within (a : Arena) : Nat → NodeId → Prop
  | 0, _ => False
  | n + 1, id => ∀ child, a.Operand child id → a.Within n child

theorem index_lt_of_operand {a : Arena} {child parent : NodeId} (h : a.Operand child parent) :
    parent.index < a.size := by
  obtain ⟨node, hnode, -⟩ := h
  exact (Array.getElem?_eq_some_iff.1 hnode).1

/-- A rank that falls along every reference excludes cycles. -/
theorem acyclic_of_rank {a : Arena} (rank : Nat → Nat)
    (h : ∀ i : Fin a.nodes.size, ∀ child ∈ a.nodes[i].form.children, rank child.index < rank i) :
    a.Acyclic := by
  have hfall : ∀ {x y}, Relation.TransGen a.Operand x y → rank x.index < rank y.index := by
    have hstep : ∀ {x y}, a.Operand x y → rank x.index < rank y.index := by
      rintro x y ⟨node, hnode, hmem⟩
      obtain ⟨hlt, rfl⟩ := Array.getElem?_eq_some_iff.1 hnode
      exact h ⟨y.index, hlt⟩ x hmem
    intro x y hxy
    induction hxy with
    | single hxy => exact hstep hxy
    | tail _ hyz ih => exact Nat.lt_trans ih (hstep hyz)
  intro id hid
  exact Nat.lt_irrefl _ (hfall hid)

/-- If the nodes that can be reached from a position lie in a finite set, chains from there are no
longer than the set is large. The induction is on the size of the set: without cycles a node
cannot be reached from its own operands, so it leaves the set when the chain moves on. -/
theorem Acyclic.within_card {a : Arena} (ha : a.Acyclic) (n : Nat) (held : Finset Nat)
    (hn : held.card = n) (id : NodeId)
    (hheld : ∀ d, Relation.ReflTransGen a.Operand d id → d.index < a.size → d.index ∈ held) :
    a.Within (n + 1) id := by
  induction n generalizing held id with
  | zero =>
    -- No node is left to be reached, so none has operands.
    intro child hchild
    have hid := hheld id .refl (index_lt_of_operand hchild)
    rw [Finset.card_eq_zero.1 hn] at hid
    exact absurd hid (Finset.notMem_empty _)
  | succ n ih =>
    intro child hchild
    have hid := hheld id .refl (index_lt_of_operand hchild)
    refine ih (held.erase id.index) (by rw [Finset.card_erase_of_mem hid, hn]; rfl) child ?_
    intro d hd hlt
    refine Finset.mem_erase.2 ⟨fun heq => ?_, hheld d (hd.tail hchild) hlt⟩
    have hsame : d = id := congrArg NodeId.mk heq
    exact ha id (Relation.TransGen.tail' (hsame ▸ hd) hchild)

/-- The depth the evaluator starts with is enough from every position, held or not. -/
theorem Acyclic.within {a : Arena} (ha : a.Acyclic) (id : NodeId) : a.Within (a.size + 1) id :=
  ha.within_card a.size (Finset.range a.size) (Finset.card_range _) id
    fun _ _ hlt => Finset.mem_range.2 hlt

/-- **Induction along the references.** What holds of every reference that leads nowhere, and of a
node whenever it holds of its operands, holds of every position. -/
@[elab_as_elim]
theorem Acyclic.induct {a : Arena} (ha : a.Acyclic) {motive : NodeId → Prop}
    (missing : ∀ id, a.get? id = none → motive id)
    (node : ∀ id form line, a.get? id = some ⟨form, line⟩ →
      (∀ child ∈ form.children, motive child) → motive id) (id : NodeId) : motive id := by
  have hall : ∀ n id, a.Within n id → motive id := by
    intro n
    induction n with
    | zero =>
      intro id hid
      exact hid.elim
    | succ n ih =>
      intro id hid
      rcases hget : a.get? id with _ | ⟨form, line⟩
      · exact missing id hget
      · exact node id form line hget fun child hmem => ih child (hid child ⟨_, hget, hmem⟩)
  exact hall _ id (ha.within id)

/-- A small arena with all that is allowed: the first node refers forward and has one node as both
operands, and the fourth refers to a node that is not there. -/
def tangled : Arena :=
  ⟨#[⟨.binary .eq ⟨2⟩ ⟨2⟩, 1⟩, ⟨.read ⟨1⟩, 2⟩, ⟨.assign ⟨1⟩ ⟨4⟩, 3⟩, ⟨.grouping ⟨9⟩, 4⟩,
    ⟨.literal (.boolean true), 5⟩]⟩

theorem acyclic_tangled : tangled.Acyclic :=
  acyclic_of_rank (fun i => if i = 0 then 2 else if i = 2 ∨ i = 3 then 1 else 0) (by decide)

end Arena

namespace Program

/-- The small arena, with a table in which its variable is called `x`. -/
def tangled : Program where
  names := ⟨#["", "x"], ((∅ : Std.TreeMap String Nat).insert "" 0).insert "x" 1⟩
  arena := .tangled

variable {p : Program}

/-- Only the operands of a node are evaluated. -/
theorem evalNode_congr {ev ev' : NodeId → State → Outcome Value} {node : Node}
    (h : ∀ child ∈ node.form.children, ∀ st, ev child st = ev' child st) (st : State) :
    p.evalNode ev node st = p.evalNode ev' node st := by
  obtain ⟨form, line⟩ := node
  cases form with
  | literal | read => rfl
  | grouping inner => exact h inner (by simp) st
  | unary op operand => simp only [evalNode, h operand (by simp)]
  | binary op left right =>
    simp only [evalNode, h left (by simp), h right (by simp)]
  | assign name value => simp only [evalNode, h value (by simp)]

theorem evalWithin_succ (p : Program) (depth : Nat) (id : NodeId) (st : State) :
    p.evalWithin (depth + 1) id st =
      match p.arena.get? id with
      | none => .fail (p.missing id) st
      | some node => p.evalNode (p.evalWithin depth) node st := by
  rw [evalWithin]
  rcases p.arena.get? id with _ | ⟨form, line⟩
  · rfl
  · cases form <;> rfl

/-- Depth beyond the longest chain of references is never used. -/
theorem evalWithin_of_le {n m : Nat} {id : NodeId} (hid : p.arena.Within n id) (hnm : n ≤ m)
    (st : State) : p.evalWithin m id st = p.evalWithin n id st := by
  induction n generalizing m id st with
  | zero => exact hid.elim
  | succ n ih =>
    -- Both depths allow one more reference; below it the induction hypothesis compares them.
    obtain ⟨m, rfl⟩ : ∃ k, m = k + 1 := ⟨m - 1, by omega⟩
    rw [evalWithin_succ, evalWithin_succ]
    rcases hget : p.arena.get? id with _ | node
    · rfl
    · exact evalNode_congr
        (fun child hmem st => ih (hid child ⟨node, hget, hmem⟩) (by omega) st) st

/-- **The value of a node.** In an arena without cycles the value of an expression is made of the
values of its operands, and no depth is left to speak of. -/
theorem evaluate_eq (hp : p.arena.Acyclic) (id : NodeId) (st : State) :
    p.evaluate id st =
      match p.arena.get? id with
      | none => .fail (p.missing id) st
      | some node => p.evalNode p.evaluate node st := by
  rw [evaluate_eq_evalWithin, maxDepth, evalWithin_succ]
  rcases hget : p.arena.get? id with _ | node
  · rfl
  · refine evalNode_congr (fun child hmem st => ?_) st
    -- The operands have one reference less to go, and could do with the full depth as well.
    rw [evaluate_eq_evalWithin, maxDepth]
    exact (evalWithin_of_le (hp.within id child ⟨node, hget, hmem⟩) (Nat.le_succ _) st).symm

end Program

end ScriptCore
