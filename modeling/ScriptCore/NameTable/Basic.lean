/-
Tables of texts. Interning a text gives the index at which the table holds it, appending the text
on its first appearance; the empty text is there from the start, at index `0`.

The table keeps its texts twice, as an array for reading a name and as a map for finding one, and
`Consistent` says that the two are inverse to each other. Interning is a probe of the map and, if
that misses, an append that probes once more. The second probe never changes the answer for a
single client; it is there so that the two halves stay correct when other clients work on the
table in between.
-/
import ScriptCore.Name

set_option autoImplicit false

namespace ScriptCore

/-- The texts of all names, by index and by content. -/
structure NameTable where
  texts : Array String
  indices : Std.TreeMap String Nat

/-- Interning fails on a table that is full. -/
structure NameOverflow where
  count : Nat
deriving DecidableEq, Repr

namespace NameTable

/-- The number of names an index of 32 bits can tell apart. -/
def capacity : Nat := Nat.pow 2 32

/-- The table that holds the empty text and nothing else. -/
def new : NameTable := ⟨#[""], (∅ : Std.TreeMap String Nat).insert "" 0⟩

/-- The number of texts, counting the empty one. -/
def size (t : NameTable) : Nat := t.texts.size

/-- No table is empty: the empty text cannot be removed. -/
def isEmpty (_ : NameTable) : Bool := false

/-- The text of a name; a name the table does not hold reads as the empty text. -/
def text (t : NameTable) (n : Name) : String := t.texts.getD n.index ""

/-- The name of a text the table already holds. -/
def find? (t : NameTable) (s : String) : Option Name := t.indices[s]?.map Name.mk

/-- The second half of interning: probe again, then append. -/
def append (t : NameTable) (s : String) : Except NameOverflow (Name × NameTable) :=
  match t.find? s with
  | some n => .ok (n, t)
  | none =>
    if t.size < capacity then
      .ok (⟨t.size⟩, ⟨t.texts.push s, t.indices.insert s t.size⟩)
    else .error ⟨t.size⟩

/-- The name of a text, together with the table that holds it. -/
def intern (t : NameTable) (s : String) : Except NameOverflow (Name × NameTable) :=
  match t.find? s with
  | some n => .ok (n, t)
  | none => t.append s

/-- For a single client the first probe decides nothing that the second one does not. -/
theorem intern_eq_append (t : NameTable) (s : String) : t.intern s = t.append s := by
  simp only [intern, append]
  cases t.find? s <;> rfl

/-! ## The two views agree -/

/-- The map finds a text at exactly the index where the array has it. -/
def Consistent (t : NameTable) : Prop :=
  ∀ (s : String) (i : Nat), t.indices[s]? = some i ↔ t.texts[i]? = some s

theorem consistent_new : Consistent new := by
  intro s i
  simp only [new, Std.TreeMap.getElem?_insert, Std.LawfulEqCmp.compare_eq_iff_eq]
  by_cases h : "" = s
  · subst h; cases i <;> simp
  · cases i <;> simp [h]

/-- Appending a new text at the end keeps the views inverse: the text was at no index before, and
the index was given to no text. -/
theorem consistent_push {t : NameTable} (ht : t.Consistent) {s : String}
    (hs : t.indices[s]? = none) :
    Consistent ⟨t.texts.push s, t.indices.insert s t.size⟩ := by
  intro u i
  simp only [Std.TreeMap.getElem?_insert, Std.LawfulEqCmp.compare_eq_iff_eq, size,
    Array.getElem?_push]
  have hs' : ∀ j, t.texts[j]? ≠ some s := fun j hj => by
    rw [← ht] at hj; simp [hs] at hj
  by_cases hu : s = u
  · subst hu
    by_cases hi : i = t.texts.size
    · simp [hi]
    · simp [hi, hs' i, Ne.symm hi]
  · by_cases hi : i = t.texts.size
    · subst hi
      have : t.texts[t.texts.size]? ≠ some u := by simp
      simp [hu, ht u t.texts.size]
    · simp [hu, hi, ht u i]

end NameTable

/-- The sentence that reports a full table. -/
def NameOverflow.message (e : NameOverflow) : String :=
  "interner exceeded capacity: " ++ toString e.count ++ " strings, max is " ++
    toString (NameTable.capacity - 1)

end ScriptCore
