/-
Statements. A block owns the statements inside it; expressions are referred to by position in the
arena of the program.
-/
import ScriptCore.Program.Node

set_option autoImplicit false

namespace ScriptCore

/-- A statement and its line. -/
inductive Stmt where
  /-- An expression, evaluated for its effects. -/
  | expression (value : NodeId) (line : Nat)
  /-- Write the value of an expression. -/
  | print (value : NodeId) (line : Nat)
  /-- Bind a name in the current scope, to `nil` if no value is given. -/
  | declare (name : Name) (init : Option NodeId) (line : Nat)
  /-- Statements in a scope of their own. -/
  | block (body : List Stmt) (line : Nat)
deriving Repr, Inhabited

namespace Stmt

/-! ## Equality -/

mutual

/-- Equality of statements, decided form by form. -/
def same : Stmt → Stmt → Bool
  | expression a l, expression b m => decide (a = b) && decide (l = m)
  | print a l, print b m => decide (a = b) && decide (l = m)
  | declare n a l, declare k b m => decide (n = k) && decide (a = b) && decide (l = m)
  | block a l, block b m => sameList a b && decide (l = m)
  | _, _ => false

/-- Equality of statement lists. -/
def sameList : List Stmt → List Stmt → Bool
  | [], [] => true
  | s :: ss, t :: ts => same s t && sameList ss ts
  | _, _ => false

end

mutual

theorem same_iff : (s t : Stmt) → (same s t = true ↔ s = t)
  | expression a l, t => by cases t <;> simp [same]
  | print a l, t => by cases t <;> simp [same]
  | declare n a l, t => by cases t <;> simp [same, and_assoc]
  | block a l, t => by
    cases t with
    | block b m => simp [same, sameList_iff a b]
    | _ => simp [same]

theorem sameList_iff : (ss ts : List Stmt) → (sameList ss ts = true ↔ ss = ts)
  | [], ts => by cases ts <;> simp [sameList]
  | s :: ss, ts => by
    cases ts with
    | nil => simp [sameList]
    | cons t ts => simp [sameList, same_iff s t, sameList_iff ss ts]

end

instance : DecidableEq Stmt := fun s t => decidable_of_iff (same s t = true) (same_iff s t)

/-! ## Descriptions -/

mutual

/-- The text by which diagnostics show a statement. -/
def describe : Stmt → String
  | expression value line =>
    "Expression(" ++ value.describe ++ ") @ line " ++ toString line
  | print value line => "Print(" ++ value.describe ++ ") @ line " ++ toString line
  | declare name none line =>
    "Var \x7b name: " ++ name.describe ++ ", init: None \x7d @ line " ++ toString line
  | declare name (some value) line =>
    "Var \x7b name: " ++ name.describe ++ ", init: Some(" ++ value.describe ++ ") \x7d @ line " ++
      toString line
  | block body line =>
    "Block([" ++ ", ".intercalate (describeAll body) ++ "]) @ line " ++ toString line

/-- The descriptions of several statements. -/
def describeAll : List Stmt → List String
  | [] => []
  | s :: ss => describe s :: describeAll ss

end

theorem describeAll_eq_map (ss : List Stmt) : describeAll ss = ss.map describe := by
  induction ss with
  | nil => rfl
  | cons s ss ih => simp [describeAll, ih]

end Stmt

end ScriptCore
