/-
Names: identifiers and string literals by number.

A name is an index into a table of texts (`ScriptCore.NameTable`). Scopes compare names by index
alone, so a name is its own variable even where no table holds a text for it.
-/
import Std.Data.TreeMap

set_option autoImplicit false

namespace ScriptCore

/-- An index into a table of texts. -/
structure Name where
  index : Nat
deriving DecidableEq, Repr, Inhabited

namespace Name

/-- The name of the empty text, the first of every table. -/
def empty : Name := ⟨0⟩

/-- How a description writes a name. -/
def describe (n : Name) : String := "Name(" ++ toString n.index ++ ")"

/-- Names are ordered by index. -/
instance : Ord Name := ⟨fun a b => compare a.index b.index⟩

theorem compare_def (a b : Name) : compare a b = compare a.index b.index := rfl

instance : Std.TransOrd Name where
  eq_swap {a b} := by
    have h : compare a.index b.index = (compare b.index a.index).swap := Std.OrientedCmp.eq_swap
    exact h
  isLE_trans {a b c} hab hbc := by
    rw [compare_def, Nat.isLE_compare] at *
    exact Nat.le_trans hab hbc

instance : Std.LawfulEqOrd Name where
  compare_self {a} := Nat.compare_eq_eq.2 rfl
  eq_of_compare {a b} h := by
    cases a; cases b
    exact congrArg Name.mk (Nat.compare_eq_eq.1 h)

end Name

end ScriptCore
