/-
Programs as trees.

A node of an arena refers to its operands by position; a tree holds them. Unfolding a position
follows its references to the end, so an operand that serves two nodes is written out twice, and a
reference that leads nowhere becomes a leaf that remembers how it went wrong.

Unfolding is cut off at a depth, as the evaluator is, and in an arena without cycles the cut is
never made: `tree_eq` unfolds a node into the unfoldings of its operands.
-/
import ScriptCore.Proofs.Acyclic
import ScriptCore.Program.Stmt

set_option autoImplicit false

namespace ScriptCore

/-- An expression that holds its operands. -/
inductive Tree where
  | literal (value : Literal)
  | grouping (inner : Tree)
  | unary (op : UnaryOp) (operand : Tree) (line : Nat)
  | binary (op : BinaryOp) (left right : Tree) (line : Nat)
  | read (name : Name) (line : Nat)
  | assign (name : Name) (value : Tree) (line : Nat)
  /-- A reference to an expression that an arena of this size does not hold. -/
  | missing (size : Nat) (id : NodeId)

/-- A statement that holds its expressions. -/
inductive StmtTree where
  | expression (value : Tree)
  | print (value : Tree)
  | declare (name : Name) (init : Option Tree)
  | block (body : List StmtTree)

/-- A node with its operands unfolded as given. -/
def Node.unfold (child : NodeId → Tree) : Node → Tree
  | ⟨.literal value, _⟩ => .literal value
  | ⟨.grouping inner, _⟩ => .grouping (child inner)
  | ⟨.unary op operand, line⟩ => .unary op (child operand) line
  | ⟨.binary op left right, line⟩ => .binary op (child left) (child right) line
  | ⟨.read name, line⟩ => .read name line
  | ⟨.assign name value, line⟩ => .assign name (child value) line

namespace Arena

/-- The tree below a position, cut off at the given depth. -/
def treeWithin (a : Arena) : Nat → NodeId → Tree
  | 0, id => .missing a.size id
  | depth + 1, id =>
    match a.get? id with
    | none => .missing a.size id
    | some node => node.unfold (a.treeWithin depth)

/-- The tree below a position. -/
def tree (a : Arena) (id : NodeId) : Tree := a.treeWithin (a.size + 1) id

mutual

/-- A statement with its expressions unfolded. -/
def stmtTree (a : Arena) : Stmt → StmtTree
  | .expression id _ => .expression (a.tree id)
  | .print id _ => .print (a.tree id)
  | .declare name init _ => .declare name (init.map a.tree)
  | .block body _ => .block (a.stmtTrees body)

/-- Statements with their expressions unfolded. -/
def stmtTrees (a : Arena) : List Stmt → List StmtTree
  | [] => []
  | stmt :: rest => a.stmtTree stmt :: a.stmtTrees rest

end

theorem unfold_congr {f g : NodeId → Tree} {node : Node}
    (h : ∀ child ∈ node.form.children, f child = g child) : node.unfold f = node.unfold g := by
  obtain ⟨form, line⟩ := node
  cases form <;> simp_all [Node.unfold]

theorem treeWithin_of_le {a : Arena} {n m : Nat} {id : NodeId} (hid : a.Within n id)
    (hnm : n ≤ m) : a.treeWithin m id = a.treeWithin n id := by
  induction n generalizing m id with
  | zero => exact hid.elim
  | succ n ih =>
    -- The deeper cut is not reached either: one reference down both sides are the hypothesis.
    obtain ⟨m, rfl⟩ : ∃ k, m = k + 1 := ⟨m - 1, by omega⟩
    rw [treeWithin, treeWithin]
    rcases hget : a.get? id with _ | node
    · rfl
    · exact unfold_congr fun child hmem => ih (hid child ⟨node, hget, hmem⟩) (by omega)

/-- **Unfolding.** A position the arena holds unfolds into its node over the unfoldings of its
operands, and one it does not hold into a leaf that is missing. -/
theorem tree_eq {a : Arena} (ha : a.Acyclic) (id : NodeId) :
    a.tree id =
      match a.get? id with
      | none => .missing a.size id
      | some node => node.unfold a.tree := by
  rw [tree, treeWithin]
  rcases hget : a.get? id with _ | node
  · rfl
  · exact unfold_congr fun child hmem =>
      (treeWithin_of_le (ha.within id child ⟨node, hget, hmem⟩) (Nat.le_succ _)).symm

end Arena

end ScriptCore
