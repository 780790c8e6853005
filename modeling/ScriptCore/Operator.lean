/-
The operators of the language, with the symbol each has in a program and the label it has in the
description of an expression.
-/

set_option autoImplicit false

namespace ScriptCore

/-- Negation of a number, and negation of a truth value. -/
inductive UnaryOp where
  | neg
  | not
deriving DecidableEq, Repr

/-- Arithmetic, equality and order. -/
inductive BinaryOp where
  | add
  | sub
  | mul
  | div
  | eq
  | notEq
  | lt
  | ltEq
  | gt
  | gtEq
deriving DecidableEq, Repr

namespace UnaryOp

/-- The symbol written in a program. -/
def symbol : UnaryOp → String
  | neg => "-"
  | not => "!"

/-- The label used in descriptions. -/
def label : UnaryOp → String
  | neg => "Neg"
  | not => "Not"

/-- All unary operators. -/
def all : List UnaryOp := [neg, not]

/-- The operator with the given symbol. -/
def ofSymbol? (s : String) : Option UnaryOp := all.find? (·.symbol == s)

/-- No two unary operators share a symbol. -/
theorem ofSymbol?_symbol (op : UnaryOp) : ofSymbol? op.symbol = some op := by
  cases op <;> decide

end UnaryOp

namespace BinaryOp

/-- The symbol written in a program. -/
def symbol : BinaryOp → String
  | add => "+"
  | sub => "-"
  | mul => "*"
  | div => "/"
  | eq => "=="
  | notEq => "!="
  | lt => "<"
  | ltEq => "<="
  | gt => ">"
  | gtEq => ">="

/-- The label used in descriptions. -/
def label : BinaryOp → String
  | add => "Add"
  | sub => "Sub"
  | mul => "Mul"
  | div => "Div"
  | eq => "Eq"
  | notEq => "NotEq"
  | lt => "Lt"
  | ltEq => "LtEq"
  | gt => "Gt"
  | gtEq => "GtEq"

/-- All binary operators. -/
def all : List BinaryOp := [add, sub, mul, div, eq, notEq, lt, ltEq, gt, gtEq]

/-- The operator with the given symbol. -/
def ofSymbol? (s : String) : Option BinaryOp := all.find? (·.symbol == s)

/-- No two binary operators share a symbol. -/
theorem ofSymbol?_symbol (op : BinaryOp) : ofSymbol? op.symbol = some op := by
  cases op <;> decide

end BinaryOp

end ScriptCore
