/-
Interning over any number of calls.

A table holds its texts twice, in an array and in a map, and each call that meets a new text has to
update both. What a call can do is said once (`Consistent.interns`): it finds a text that is held
and changes nothing, it appends a new one at the end, or it refuses a new one because the table is
full. All that holds of a run of calls is derived from these three cases. The array only ever grows
at its end (`Consistent.after`), so a name keeps its text, and short of the capacity its contents
are the texts of the calls in the order of their first appearance (`texts_after`).
-/
import Mathlib.Data.List.Induction
import Mathlib.Data.List.Nodup
import ScriptCore.NameTable.Basic

set_option autoImplicit false

namespace ScriptCore

namespace NameTable

variable {t t' : NameTable} {s : String} {n : Name}

/-! ## One call -/

/-- The three ways in which interning a text can end. -/
inductive Interns (t : NameTable) (s : String) : Except NameOverflow (Name × NameTable) → Prop where
  | held {n : Name} : t.texts[n.index]? = some s → Interns t s (.ok (n, t))
  | fresh : s ∉ t.texts → t.size < capacity →
      Interns t s (.ok (⟨t.size⟩, ⟨t.texts.push s, t.indices.insert s t.size⟩))
  | full : s ∉ t.texts → capacity ≤ t.size → Interns t s (.error ⟨t.size⟩)

theorem Consistent.find?_eq_some_iff (ht : t.Consistent) :
    t.find? s = some n ↔ t.texts[n.index]? = some s := by
  rw [← ht s n.index, find?, Option.map_eq_some_iff]
  constructor
  · rintro ⟨i, hi, rfl⟩
    exact hi
  · intro hi
    exact ⟨n.index, hi, rfl⟩

theorem Consistent.find?_eq_none_iff (ht : t.Consistent) : t.find? s = none ↔ s ∉ t.texts := by
  rw [Array.mem_iff_getElem?, Option.eq_none_iff_forall_ne_some]
  constructor
  · rintro hnone ⟨i, hi⟩
    exact hnone ⟨i⟩ (ht.find?_eq_some_iff.2 hi)
  · intro hnot n hn
    exact hnot ⟨n.index, ht.find?_eq_some_iff.1 hn⟩

/-- **One call.** Where the two views agree, interning ends in one of the three ways. -/
theorem Consistent.interns (ht : t.Consistent) (s : String) : t.Interns s (t.intern s) := by
  rw [intern_eq_append, NameTable.append]
  rcases hfind : t.find? s with _ | n
  · have hnew : s ∉ t.texts := ht.find?_eq_none_iff.1 hfind
    by_cases hroom : t.size < capacity
    · simp only [if_pos hroom]
      exact .fresh hnew hroom
    · simp only [if_neg hroom]
      exact .full hnew (Nat.le_of_not_lt hroom)
  · exact .held (ht.find?_eq_some_iff.1 hfind)

theorem Interns.consistent (ht : t.Consistent) (h : t.Interns s (.ok (n, t'))) :
    t'.Consistent := by
  rcases h with hheld | ⟨hnew, -⟩
  · exact ht
  · apply consistent_push ht
    have hnone : t.find? s = none := ht.find?_eq_none_iff.2 hnew
    rwa [find?, Option.map_eq_none_iff] at hnone

/-- The name that is given back is the position of the text. -/
theorem Interns.getElem? (h : t.Interns s (.ok (n, t'))) : t'.texts[n.index]? = some s := by
  rcases h with hheld | -
  · exact hheld
  · exact Array.getElem?_push_size

theorem Interns.prefix_texts (h : t.Interns s (.ok (n, t'))) :
    t.texts.toList <+: t'.texts.toList := by
  rcases h with - | -
  · exact List.prefix_refl _
  · rw [Array.toList_push]
    exact List.prefix_append _ _

/-- No text stands at two positions, since the map gives it one. -/
theorem Consistent.index_unique (ht : t.Consistent) {i j : Nat} (hi : t.texts[i]? = some s)
    (hj : t.texts[j]? = some s) : i = j := by
  rw [← ht] at hi hj
  exact Option.some.inj (hi.symm.trans hj)

theorem Consistent.nodup_texts (ht : t.Consistent) : t.texts.toList.Nodup := by
  rw [List.nodup_iff_getElem?_ne_getElem?]
  intro i j hij hj heq
  have hs : t.texts.toList[j]? = some t.texts.toList[j] := List.getElem?_eq_getElem hj
  rw [hs, Array.getElem?_toList] at heq
  rw [Array.getElem?_toList] at hs
  exact absurd (ht.index_unique heq hs) (Nat.ne_of_lt hij)

/-! ## Any number of calls -/

/-- What the table is after a call. A refusal leaves it as it is. -/
def next (t : NameTable) (s : String) : NameTable :=
  match t.intern s with
  | .ok (_, t') => t'
  | .error _ => t

/-- What the table is after calls, one behind the other. -/
def after (t : NameTable) (calls : List String) : NameTable := calls.foldl next t

theorem after_append (t : NameTable) (first second : List String) :
    t.after (first ++ second) = (t.after first).after second :=
  List.foldl_append

theorem after_concat (t : NameTable) (calls : List String) (s : String) :
    t.after (calls ++ [s]) = (t.after calls).next s :=
  after_append t calls [s]

theorem next_of_ok (h : t.intern s = .ok (n, t')) : t.next s = t' := by
  rw [next, h]

/-- A call keeps the two views inverse to each other and moves no text. -/
theorem Consistent.next (ht : t.Consistent) (s : String) :
    (t.next s).Consistent ∧ t.texts.toList <+: (t.next s).texts.toList := by
  have h := ht.interns s
  rw [NameTable.next]
  rcases hcall : t.intern s with overflow | ⟨n, t'⟩ <;> rw [hcall] at h
  · exact ⟨ht, List.prefix_refl _⟩
  · exact ⟨h.consistent ht, h.prefix_texts⟩

theorem Consistent.after (ht : t.Consistent) (calls : List String) :
    (t.after calls).Consistent ∧ t.texts.toList <+: (t.after calls).texts.toList := by
  induction calls using List.reverseRecOn with
  | nil => exact ⟨ht, List.prefix_refl _⟩
  | append_singleton calls s ih =>
    obtain ⟨hcons, hpre⟩ := ih
    obtain ⟨hcons', hpre'⟩ := hcons.next s
    rw [after_concat]
    exact ⟨hcons', hpre.trans hpre'⟩

theorem size_le_of_isPrefix (h : t.texts.toList <+: t'.texts.toList) : t.size ≤ t'.size := by
  simpa [size] using h.length_le

theorem getElem?_of_isPrefix (h : t.texts.toList <+: t'.texts.toList) {i : Nat}
    (hi : t.texts[i]? = some s) : t'.texts[i]? = some s := by
  rw [← Array.getElem?_toList] at hi ⊢
  obtain ⟨rest, hrest⟩ := h
  have hlt : i < t.texts.toList.length := (List.getElem?_eq_some_iff.1 hi).1
  rw [← hrest, List.getElem?_append_left hlt, hi]

theorem text_of_getElem? (h : t.texts[n.index]? = some s) : t.text n = s := by
  rw [text, Array.getD_eq_getD_getElem?, h, Option.getD_some]

/-- Below the capacity a call adds a text exactly if it is new. -/
theorem Consistent.texts_next (ht : t.Consistent) (hroom : t.size < capacity) (s : String) :
    (t.next s).texts.toList =
      if s ∈ t.texts.toList then t.texts.toList else t.texts.toList ++ [s] := by
  have h := ht.interns s
  rw [NameTable.next]
  rcases hcall : t.intern s with overflow | ⟨n, t'⟩ <;> rw [hcall] at h
  · -- A refusal needs a full table.
    rcases h with - | - | ⟨-, hfull⟩
    omega
  · rcases h with hheld | ⟨hnew, -⟩
    · have hmem : s ∈ t.texts.toList := Array.mem_def.1 (Array.mem_of_getElem? hheld)
      rw [if_pos hmem]
    · rw [Array.mem_def] at hnew
      rw [if_neg hnew, Array.toList_push]

/-- A text at the end of a list is a first appearance or no appearance at all. -/
theorem eraseDups_concat (texts : List String) (s : String) :
    (texts ++ [s]).eraseDups =
      if s ∈ texts.eraseDups then texts.eraseDups else texts.eraseDups ++ [s] := by
  rw [List.eraseDups_append]
  by_cases hmem : s ∈ texts
  · simp [hmem, List.removeAll]
  · simp [hmem, List.removeAll, List.eraseDups_cons]

/-- Short of the capacity, a table holds the texts of its calls in the order of first
appearance. -/
theorem texts_after {calls : List String} (hroom : (new.after calls).size < capacity) :
    (new.after calls).texts.toList = ("" :: calls).eraseDups := by
  induction calls using List.reverseRecOn with
  | nil => rfl
  | append_singleton calls s ih =>
    obtain ⟨hcons, -⟩ := consistent_new.after calls
    rw [after_concat] at hroom ⊢
    -- The table was no larger before the last call.
    have hbefore : (new.after calls).size < capacity :=
      Nat.lt_of_le_of_lt (size_le_of_isPrefix (hcons.next s).2) hroom
    rw [hcons.texts_next hbefore, ih hbefore, ← eraseDups_concat]
    rfl

/-! ## From the outside -/

/-- **Texts and indices are in bijection.** After any calls on a new table that leave room in it,
the empty text is at index `0`, no text is held twice, and the map and the array are inverse to
each other; the array lists the distinct texts in the order of first appearance. The next call
gives a name that reads as its text from then on. If the table holds the text it stays as it is,
otherwise the name is the number of texts so far and there is one text more. Two calls, any number
of other calls apart, give one name exactly if they are about one text. -/
theorem calls_enumerate_texts (calls : List String) (hroom : (new.after calls).size < capacity) :
    (new.after calls).texts[0]? = some "" ∧
      (new.after calls).texts.toList.Nodup ∧
      (∀ (s : String) (i : Nat),
        (new.after calls).indices[s]? = some i ↔ (new.after calls).texts[i]? = some s) ∧
      (new.after calls).texts.toList = ("" :: calls).eraseDups ∧
      ∀ s, ∃ n t, (new.after calls).intern s = .ok (n, t) ∧
        (∀ later, (t.after later).text n = s) ∧
        (s ∈ (new.after calls).texts → t = new.after calls) ∧
        (s ∉ (new.after calls).texts →
          n.index = (new.after calls).size ∧ t.size = (new.after calls).size + 1) ∧
        ∀ later u m t', (t.after later).intern u = .ok (m, t') → (n = m ↔ s = u) := by
  obtain ⟨hcons, hpre⟩ := consistent_new.after calls
  refine ⟨getElem?_of_isPrefix hpre rfl, hcons.nodup_texts, hcons, texts_after hroom, fun s => ?_⟩
  have h := hcons.interns s
  rcases hcall : (new.after calls).intern s with overflow | ⟨n, t⟩ <;> rw [hcall] at h
  · rcases h with - | - | ⟨-, hfull⟩
    omega
  have hcons' : t.Consistent := h.consistent hcons
  -- The position of the text is the same after all later calls.
  have hstays : ∀ later, (t.after later).texts[n.index]? = some s := fun later =>
    getElem?_of_isPrefix (hcons'.after later).2 h.getElem?
  refine ⟨n, t, rfl, fun later => text_of_getElem? (hstays later), ?_, ?_, ?_⟩
  · intro hmem
    rcases h with - | ⟨hnew, -⟩
    · rfl
    · exact absurd hmem hnew
  · intro hnew
    rcases h with hheld | -
    · exact absurd (Array.mem_of_getElem? hheld) hnew
    · exact ⟨rfl, Array.size_push _⟩
  · intro later u m t' hcall'
    obtain ⟨hlast, -⟩ := hcons'.after later
    have h' := hlast.interns u
    rw [hcall'] at h'
    have hs : t'.texts[n.index]? = some s := getElem?_of_isPrefix h'.prefix_texts (hstays later)
    constructor
    · rintro rfl
      exact Option.some.inj (hs.symm.trans h'.getElem?)
    · rintro rfl
      exact congrArg Name.mk ((h'.consistent hlast).index_unique hs h'.getElem?)

/-- Two texts, one of them twice and the empty one in between; then the first is asked for again,
and a third one. -/
theorem calls_enumerate_texts_repeated :
    (new.after ["x", "", "y", "x"]).size < capacity ∧
      (new.after ["x", "", "y", "x"]).texts.toList = ["", "x", "y"] ∧
      (∃ n t, (new.after ["x", "", "y", "x"]).intern "y" = .ok (n, t) ∧
        (∀ later, (t.after later).text n = "y") ∧ t = new.after ["x", "", "y", "x"]) ∧
      ∃ n t, (new.after ["x", "", "y", "x"]).intern "z" = .ok (n, t) ∧ n.index = 3 ∧
        t.size = 4 := by
  have hroom : (new.after ["x", "", "y", "x"]).size < capacity := by decide +kernel
  obtain ⟨-, -, -, horder, hnext⟩ := calls_enumerate_texts ["x", "", "y", "x"] hroom
  have hlist : (new.after ["x", "", "y", "x"]).texts.toList = ["", "x", "y"] := by
    rw [horder]
    decide +kernel
  have hsize : (new.after ["x", "", "y", "x"]).size = 3 := by decide +kernel
  refine ⟨hroom, hlist, ?_, ?_⟩
  · obtain ⟨n, t, hcall, hreads, hsame, -⟩ := hnext "y"
    have hheld : "y" ∈ (new.after ["x", "", "y", "x"]).texts := by
      rw [Array.mem_def, hlist]
      decide
    exact ⟨n, t, hcall, hreads, hsame hheld⟩
  · obtain ⟨n, t, hcall, -, -, hgrows, -⟩ := hnext "z"
    have hnew : "z" ∉ (new.after ["x", "", "y", "x"]).texts := by
      rw [Array.mem_def, hlist]
      decide
    obtain ⟨hindex, hone⟩ := hgrows hnew
    exact ⟨n, t, hcall, hindex.trans hsize, by rw [hone, hsize]⟩

end NameTable

end ScriptCore
