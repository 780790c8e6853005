/-
Handles to tables of names. Several handles may lead to one table, and what is interned through
one of them is seen through all of them; tables of different origin never meet. One handle is
selected at a time, and every operation goes through it.
-/
import ScriptCore.NameTable.Basic

set_option autoImplicit false

namespace ScriptCore

/-- Tables, the table each handle leads to, and the selected handle. -/
structure NameHandles where
  tables : Array NameTable
  owners : Array Nat
  selected : Nat

namespace NameHandles

/-- One handle, selected, to one new table. -/
def new : NameHandles := ⟨#[NameTable.new], #[0], 0⟩

/-- The number of handles. -/
def size (h : NameHandles) : Nat := h.owners.size

/-- The table the selected handle leads to. -/
def owner (h : NameHandles) : Nat := h.owners.getD h.selected 0

/-- The contents of that table. -/
def table (h : NameHandles) : NameTable := h.tables.getD h.owner NameTable.new

/-- Add another handle to the same table and select it. -/
def share (h : NameHandles) : NameHandles :=
  { h with owners := h.owners.push h.owner, selected := h.size }

/-- Add a handle to a new table and select it. -/
def separate (h : NameHandles) : NameHandles where
  tables := h.tables.push NameTable.new
  owners := h.owners.push h.tables.size
  selected := h.size

/-- Select a handle, counting round past the last one. -/
def select (h : NameHandles) (i : Nat) : NameHandles := { h with selected := i % h.size }

/-- Intern a text through the selected handle. -/
def intern (h : NameHandles) (s : String) : Except NameOverflow (Name × NameHandles) :=
  (h.table.intern s).map fun (n, t) =>
    (n, { h with tables := h.tables.setIfInBounds h.owner t })

end NameHandles

end ScriptCore
