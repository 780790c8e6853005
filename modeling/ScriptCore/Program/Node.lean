/-
Expressions. All expressions of a program are nodes of one arena and refer to their operands by
position in it, so an operand may stand anywhere in the arena, serve several nodes, or be missing.

A node carries the line that a runtime error raised by it is attributed to.
-/
import ScriptCore.Name
import ScriptCore.Number.Text
import ScriptCore.Operator

set_option autoImplicit false

namespace ScriptCore

/-- A position in an arena, held by it or not. -/
structure NodeId where
  index : Nat
deriving DecidableEq, Repr, Inhabited

/-- A literal. Numbers are told apart by pattern, and a string is given by its name. -/
inductive Literal where
  | number (value : Number)
  | string (name : Name)
  | boolean (value : Bool)
  | nil
deriving DecidableEq, Repr

/-- The forms of an expression. -/
inductive Form where
  | literal (value : Literal)
  | grouping (inner : NodeId)
  | unary (op : UnaryOp) (operand : NodeId)
  | binary (op : BinaryOp) (left right : NodeId)
  | read (name : Name)
  | assign (name : Name) (value : NodeId)
deriving DecidableEq, Repr

/-- An expression and the line it is attributed to. -/
structure Node where
  form : Form
  line : Nat
deriving DecidableEq, Repr

/-- All expressions of a program, by position. -/
structure Arena where
  nodes : Array Node
deriving DecidableEq, Repr

namespace Arena

/-- No expressions. -/
def empty : Arena := ⟨#[]⟩

/-- The number of expressions. -/
def size (a : Arena) : Nat := a.nodes.size

/-- The expression at a position, if the arena holds one there. -/
def get? (a : Arena) (id : NodeId) : Option Node := a.nodes[id.index]?

/-- Append an expression; its position is the old size. Positions are natural numbers here, so an
arena is never full. -/
def add (a : Arena) (node : Node) : NodeId × Arena := (⟨a.size⟩, ⟨a.nodes.push node⟩)

/-- The new expression is found where `add` says, and appending moves no other. -/
theorem get?_add (a : Arena) (node : Node) (id : NodeId) :
    (a.add node).2.get? id = if id.index = a.size then some node else a.get? id :=
  Array.getElem?_push

/-- Only positions below the size are held. -/
theorem get?_eq_none_iff (a : Arena) (id : NodeId) : a.get? id = none ↔ a.size ≤ id.index := by
  simp [get?, size]

end Arena

namespace Form

/-- The operands of an expression, in the order they are evaluated. -/
@[simp] def children : Form → List NodeId
  | literal _ | read _ => []
  | grouping inner => [inner]
  | unary _ operand => [operand]
  | binary _ left right => [left, right]
  | assign _ value => [value]

end Form

/-! ## Descriptions

The text by which diagnostics show an expression. -/

/-- A position. -/
def NodeId.describe (id : NodeId) : String := "ExprId(" ++ toString id.index ++ ")"

/-- A literal; a string is shown by its name. -/
def Literal.describe : Literal → String
  | number x => "Number(" ++ x.text .described ++ ")"
  | string name => "Str(" ++ name.describe ++ ")"
  | boolean true => "Bool(true)"
  | boolean false => "Bool(false)"
  | nil => "Nil"

/-- A form, with its operands by position. -/
def Form.describe : Form → String
  | literal value => "Literal(" ++ value.describe ++ ")"
  | grouping inner => "Grouping(" ++ inner.describe ++ ")"
  | unary op operand =>
    "Unary \x7b op: " ++ op.label ++ ", operand: " ++ operand.describe ++ " \x7d"
  | binary op left right =>
    "Binary \x7b op: " ++ op.label ++ ", left: " ++ left.describe ++ ", right: " ++
      right.describe ++ " \x7d"
  | read name => "Variable(" ++ name.describe ++ ")"
  | assign name value =>
    "Assign \x7b name: " ++ name.describe ++ ", value: " ++ value.describe ++ " \x7d"

/-- An expression with its line. -/
def Node.describe (node : Node) : String :=
  node.form.describe ++ " @ line " ++ toString node.line

end ScriptCore
