/-
One table, many clients.

Interning is a probe under a lock for reading and, if that misses, a section under the lock for
writing that probes once more and then appends. The lock makes each of the two a single step, and
between the two steps of one call any number of steps of other calls may come, also of calls for the
same text. A client that calls several times has several calls here.

Whatever the order, the calls behave as if each were made in one piece, at the moment of its answer:
a probe that hits and a write section both do what interning the text at that moment does
(`step_cases`). So the table is always the one that the answered calls leave if they are made one
after the other in the order of their answers (`Follows`), and what holds of calls one after the
other carries over.
-/
import Mathlib.Data.Finset.Card
import Mathlib.Data.List.Perm.Basic
import ScriptCore.Proofs.Interning

set_option autoImplicit false

namespace ScriptCore

/-- How far a call has come. -/
inductive Stage where
  /-- Before its probe. -/
  | ready
  /-- The probe missed, and the write section is still to come. -/
  | missed
  | returned (name : Name)
  | refused (overflow : NameOverflow)
deriving DecidableEq, Repr

/-- A call to intern a text. -/
structure Call where
  text : String
  stage : Stage
deriving DecidableEq, Repr

/-- The text of a call that has its name. -/
def Call.answered? (call : Call) : Option String :=
  match call.stage with
  | .returned _ => some call.text
  | _ => none

/-- A table and all calls made on it so far, finished or not. -/
structure SharedTable where
  table : NameTable
  calls : List Call

/-- Who goes next: a new call, or an earlier one with its next step. -/
inductive Turn where
  | arrive (text : String)
  | proceed (call : Nat)
deriving DecidableEq, Repr

namespace SharedTable

/-- A new table that nobody has called. -/
def new : SharedTable := ⟨.new, []⟩

/-- The probe of a call, under the lock for reading. -/
def probe (sys : SharedTable) (i : Nat) (text : String) : SharedTable :=
  match sys.table.find? text with
  | some name => { sys with calls := sys.calls.set i ⟨text, .returned name⟩ }
  | none => { sys with calls := sys.calls.set i ⟨text, .missed⟩ }

/-- The rest of a call whose probe missed, under the lock for writing. -/
def write (sys : SharedTable) (i : Nat) (text : String) : SharedTable :=
  match sys.table.append text with
  | .ok (name, table) => ⟨table, sys.calls.set i ⟨text, .returned name⟩⟩
  | .error overflow => { sys with calls := sys.calls.set i ⟨text, .refused overflow⟩ }

/-- One step. A call that is finished, or not there, does nothing. -/
def step (sys : SharedTable) : Turn → SharedTable
  | .arrive text => { sys with calls := sys.calls ++ [⟨text, .ready⟩] }
  | .proceed i =>
    match sys.calls[i]? with
    | some ⟨text, .ready⟩ => sys.probe i text
    | some ⟨text, .missed⟩ => sys.write i text
    | _ => sys

/-- Steps in the given order. -/
def run (sys : SharedTable) (turns : List Turn) : SharedTable := turns.foldl step sys

/-- Some order of steps leads there. -/
def Reachable (sys : SharedTable) : Prop := ∃ turns, new.run turns = sys

/-- The texts of the calls that have their names. -/
def answered (sys : SharedTable) : List String := sys.calls.filterMap Call.answered?

/-! ## What one step can do -/

/-- The ways in which a step can change the table and the calls. In the last but one, the call is
answered as if its text were interned just then. -/
inductive Steps (sys : SharedTable) : SharedTable → Prop where
  | idle : Steps sys sys
  | arrives (text : String) : Steps sys { sys with calls := sys.calls ++ [⟨text, .ready⟩] }
  | misses {i : Nat} {text : String} : sys.calls[i]? = some ⟨text, .ready⟩ →
      Steps sys { sys with calls := sys.calls.set i ⟨text, .missed⟩ }
  | answers {i : Nat} {call : Call} {name : Name} {table : NameTable} :
      sys.calls[i]? = some call → call.answered? = none →
      sys.table.intern call.text = .ok (name, table) →
      Steps sys ⟨table, sys.calls.set i ⟨call.text, .returned name⟩⟩
  | refuses {i : Nat} {text : String} {overflow : NameOverflow} :
      sys.calls[i]? = some ⟨text, .missed⟩ → sys.table.intern text = .error overflow →
      Steps sys { sys with calls := sys.calls.set i ⟨text, .refused overflow⟩ }

theorem step_cases (sys : SharedTable) (turn : Turn) : sys.Steps (sys.step turn) := by
  rcases turn with text | i
  · exact .arrives text
  rw [step]
  rcases hcall : sys.calls[i]? with _ | ⟨text, stage⟩
  · exact .idle
  rcases stage with _ | _ | name | overflow
  · -- A probe that hits answers what the whole of interning would answer.
    simp only [probe]
    rcases hfind : sys.table.find? text with _ | name
    · exact .misses hcall
    · refine .answers hcall rfl ?_
      rw [NameTable.intern, hfind]
  · -- The write section is interning without the first probe.
    simp only [write]
    rcases happend : sys.table.append text with overflow | ⟨name, table⟩ <;>
      rw [← NameTable.intern_eq_append] at happend
    · exact .refuses hcall happend
    · exact .answers hcall rfl happend
  · exact .idle
  · exact .idle

/-! ## The order of the answers -/

/-- What the stage of a call says about the table: a name is the position of its text, and a refusal
comes from a full table. -/
def Tells (table : NameTable) : Call → Prop
  | ⟨_, .ready⟩ | ⟨_, .missed⟩ => True
  | ⟨text, .returned name⟩ => table.texts[name.index]? = some text
  | ⟨_, .refused _⟩ => NameTable.capacity ≤ table.size

/-- What was true of a call stays true when texts are added. -/
theorem Tells.mono {table table' : NameTable} {call : Call} (h : Tells table call)
    (hpre : table.texts.toList <+: table'.texts.toList) : Tells table' call := by
  rcases call with ⟨text, _ | _ | name | overflow⟩
  · trivial
  · trivial
  · exact NameTable.getElem?_of_isPrefix hpre h
  · exact Nat.le_trans h (NameTable.size_le_of_isPrefix hpre)

/-- The table is what the texts of the answered calls leave, interned one after the other in the
given order, and every call tells the truth about it. -/
structure Follows (sys : SharedTable) (order : List String) : Prop where
  table : sys.table = NameTable.new.after order
  answered : sys.answered.Perm order
  calls : ∀ call ∈ sys.calls, Tells sys.table call

theorem follows_new : new.Follows [] := ⟨rfl, .refl _, nofun⟩

/-- The calls around one of them, which setting that one leaves alone. -/
theorem exists_around {calls : List Call} {i : Nat} {call : Call} (h : calls[i]? = some call) :
    ∃ before behind, calls = before ++ call :: behind ∧
      ∀ call', calls.set i call' = before ++ call' :: behind := by
  obtain ⟨hlt, rfl⟩ := List.getElem?_eq_some_iff.1 h
  refine ⟨calls.take i, calls.drop (i + 1), ?_, fun call' => ?_⟩
  · rw [List.cons_getElem_drop_succ, List.take_append_drop]
  · rw [List.set_eq_take_append_cons_drop, if_pos hlt]

namespace Follows

variable {sys sys' : SharedTable} {order : List String}

theorem consistent (h : sys.Follows order) : sys.table.Consistent := by
  rw [h.table]
  exact (NameTable.consistent_new.after order).1

/-- A step that answers nobody changes the stage of one call at most. -/
theorem set_unanswered (h : sys.Follows order) {i : Nat} {call call' : Call}
    (hcall : sys.calls[i]? = some call) (hold : call.answered? = none)
    (hnew : call'.answered? = none) (htells : Tells sys.table call') :
    Follows { sys with calls := sys.calls.set i call' } order := by
  obtain ⟨before, behind, hcalls, hset⟩ := exists_around hcall
  refine ⟨h.table, ?_, ?_⟩
  · have hsame : (sys.calls.set i call').filterMap Call.answered? = sys.answered := by
      rw [SharedTable.answered, hset, hcalls]
      simp only [List.filterMap_append, List.filterMap_cons, hold, hnew]
    rw [SharedTable.answered, hsame]
    exact h.answered
  · intro other hother
    rcases List.mem_or_eq_of_mem_set hother with hother | rfl
    · exact h.calls other hother
    · exact htells

/-- A step that answers a call puts its text behind the others. -/
theorem set_returned (h : sys.Follows order) {i : Nat} {call : Call} {name : Name}
    {table : NameTable} (hcall : sys.calls[i]? = some call) (hold : call.answered? = none)
    (hintern : sys.table.intern call.text = .ok (name, table)) :
    Follows ⟨table, sys.calls.set i ⟨call.text, .returned name⟩⟩ (order ++ [call.text]) := by
  obtain ⟨before, behind, hcalls, hset⟩ := exists_around hcall
  have hinterns := h.consistent.interns call.text
  rw [hintern] at hinterns
  refine ⟨?_, ?_, ?_⟩
  · rw [NameTable.after_concat, ← h.table, NameTable.next_of_ok hintern]
  · have hbefore : sys.answered =
        before.filterMap Call.answered? ++ behind.filterMap Call.answered? := by
      rw [SharedTable.answered, hcalls]
      simp only [List.filterMap_append, List.filterMap_cons, hold]
    have hafter : (sys.calls.set i ⟨call.text, .returned name⟩).filterMap Call.answered? =
        before.filterMap Call.answered? ++ call.text :: behind.filterMap Call.answered? := by
      rw [hset]
      simp only [List.filterMap_append, List.filterMap_cons, Call.answered?]
    have hperm := h.answered
    rw [hbefore] at hperm
    rw [SharedTable.answered, hafter]
    exact (List.perm_middle.trans (hperm.cons _)).trans (List.perm_append_singleton _ _).symm
  · intro other hother
    rcases List.mem_or_eq_of_mem_set hother with hother | rfl
    · exact (h.calls other hother).mono hinterns.prefix_texts
    · exact hinterns.getElem?

/-- **One step.** The order of the answers goes on at its end. -/
theorem steps (h : sys.Follows order) (hstep : sys.Steps sys') :
    ∃ order', sys'.Follows (order ++ order') := by
  rcases hstep with - | text | hcall | ⟨hcall, hold, hintern⟩ | @⟨_, text, _, hcall, hintern⟩
  · exact ⟨[], by rwa [List.append_nil]⟩
  · refine ⟨[], ?_⟩
    rw [List.append_nil]
    refine ⟨h.table, ?_, ?_⟩
    · have hsame : (sys.calls ++ [(⟨text, .ready⟩ : Call)]).filterMap Call.answered? =
          sys.answered := by
        rw [List.filterMap_append]
        exact List.append_nil _
      rw [SharedTable.answered, hsame]
      exact h.answered
    · intro call hmem
      rcases List.mem_append.1 hmem with hmem | hmem
      · exact h.calls call hmem
      · rw [List.mem_singleton.1 hmem]
        trivial
  · refine ⟨[], ?_⟩
    rw [List.append_nil]
    exact h.set_unanswered hcall rfl rfl trivial
  · exact ⟨_, h.set_returned hcall hold hintern⟩
  · refine ⟨[], ?_⟩
    rw [List.append_nil]
    refine h.set_unanswered hcall rfl rfl ?_
    have hinterns := h.consistent.interns text
    rw [hintern] at hinterns
    rcases hinterns with - | - | ⟨-, hfull⟩
    exact hfull

/-- **Any number of steps.** -/
theorem run (h : sys.Follows order) (turns : List Turn) :
    ∃ order', (sys.run turns).Follows (order ++ order') := by
  induction turns generalizing sys order with
  | nil => exact ⟨[], by rwa [List.append_nil]⟩
  | cons turn rest ih =>
    obtain ⟨first, hfirst⟩ := h.steps (sys.step_cases turn)
    obtain ⟨others, hothers⟩ := ih hfirst
    refine ⟨first ++ others, ?_⟩
    rw [← List.append_assoc]
    exact hothers

end Follows

theorem Reachable.follows {sys : SharedTable} (h : sys.Reachable) :
    ∃ order, sys.Follows order := by
  obtain ⟨turns, rfl⟩ := h
  exact follows_new.run turns

/-! ## Answers and growth -/

section Progress

variable {sys : SharedTable} {i : Nat} {text : String}

/-- A finished call takes no more steps. -/
theorem step_of_returned {name : Name} (h : sys.calls[i]? = some ⟨text, .returned name⟩) :
    sys.step (.proceed i) = sys := by
  rw [step, h]

theorem getElem?_set_self {call : Call} (h : sys.calls[i]? = some call) (call' : Call) :
    (sys.calls.set i call')[i]? = some call' :=
  List.getElem?_set_self (List.getElem?_eq_some_iff.1 h).1

/-- In a table with room the write section answers. -/
theorem Follows.step_of_missed {order : List String} (hf : sys.Follows order)
    (hroom : sys.table.size < NameTable.capacity) (h : sys.calls[i]? = some ⟨text, .missed⟩) :
    ∃ name, (sys.step (.proceed i)).calls[i]? = some ⟨text, .returned name⟩ := by
  have hinterns := hf.consistent.interns text
  rw [NameTable.intern_eq_append] at hinterns
  rw [step, h]
  simp only [write]
  rcases happend : sys.table.append text with overflow | ⟨name, table⟩ <;>
    rw [happend] at hinterns
  · rcases hinterns with - | - | ⟨-, hfull⟩
    omega
  · exact ⟨name, getElem?_set_self h _⟩

/-- In a table with room, two steps of its own answer any call. -/
theorem Follows.two_steps {order : List String} (hf : sys.Follows order)
    (hroom : sys.table.size < NameTable.capacity) {call : Call} (h : sys.calls[i]? = some call) :
    ∃ name, ((sys.step (.proceed i)).step (.proceed i)).calls[i]? =
      some ⟨call.text, .returned name⟩ := by
  rcases call with ⟨text, _ | _ | name | overflow⟩
  · rcases hfind : sys.table.find? text with _ | name
    · -- The probe changes no text, so there is room for the write section.
      have hprobe : sys.step (.proceed i) =
          { sys with calls := sys.calls.set i ⟨text, .missed⟩ } := by
        rw [step, h]
        simp only [probe, hfind]
      have hmissed : Follows { sys with calls := sys.calls.set i ⟨text, .missed⟩ } order :=
        hf.set_unanswered h rfl rfl trivial
      rw [hprobe]
      exact hmissed.step_of_missed hroom (getElem?_set_self h _)
    · have hprobe : sys.step (.proceed i) =
          { sys with calls := sys.calls.set i ⟨text, .returned name⟩ } := by
        rw [step, h]
        simp only [probe, hfind]
      have hreturned : (sys.step (.proceed i)).calls[i]? = some ⟨text, .returned name⟩ := by
        rw [hprobe]
        exact getElem?_set_self h _
      rw [step_of_returned hreturned]
      exact ⟨name, hreturned⟩
  · obtain ⟨name, hreturned⟩ := hf.step_of_missed hroom h
    rw [step_of_returned hreturned]
    exact ⟨name, hreturned⟩
  · rw [step_of_returned h, step_of_returned h]
    exact ⟨name, h⟩
  · -- A call is refused by a full table only.
    have hfull : NameTable.capacity ≤ sys.table.size := hf.calls _ (List.mem_of_getElem? h)
    omega

end Progress

/-- With room in it, the table holds as many texts as were answered for, the empty one included. -/
theorem Follows.size_eq_card {sys : SharedTable} {order : List String} (h : sys.Follows order)
    (hroom : sys.table.size < NameTable.capacity) :
    sys.table.texts.toList.toFinset = insert "" sys.answered.toFinset ∧
      sys.table.size = (insert "" sys.answered.toFinset).card := by
  have htexts : sys.table.texts.toList = ("" :: order).eraseDups := by
    rw [h.table] at hroom ⊢
    exact NameTable.texts_after hroom
  have hset : sys.table.texts.toList.toFinset = insert "" sys.answered.toFinset := by
    ext text
    rw [htexts, List.mem_toFinset, List.mem_eraseDups, List.mem_cons, Finset.mem_insert,
      List.mem_toFinset, h.answered.mem_iff]
  refine ⟨hset, ?_⟩
  rw [← hset, List.toFinset_card_of_nodup h.consistent.nodup_texts, Array.length_toList]
  rfl

/-! ## From the outside -/

/-- **Every order of steps is safe.** Take any state that steps of any number of calls can lead to,
and any steps behind it that leave room in the table. No text stands twice in the table, its map and
its array are inverse to each other, and no entry is moved or lost later on. A name that a call
got reads as the text of the call ever after, and two calls get one name exactly if they are about
one text. Every call has its name after two steps of its own. In the end the table has grown by the
number of distinct texts that were answered for and that it did not hold. -/
theorem interleavings_intern_once (sys : SharedTable) (hsys : sys.Reachable) (later : List Turn)
    (hroom : (sys.run later).table.size < NameTable.capacity) :
    sys.table.texts.toList.Nodup ∧
      (∀ (s : String) (i : Nat),
        sys.table.indices[s]? = some i ↔ sys.table.texts[i]? = some s) ∧
      sys.table.texts.toList <+: (sys.run later).table.texts.toList ∧
      (∀ call ∈ sys.calls, ∀ name, call.stage = .returned name →
        (sys.run later).table.text name = call.text ∧
          ∀ other ∈ (sys.run later).calls, ∀ name', other.stage = .returned name' →
            (name = name' ↔ call.text = other.text)) ∧
      (∀ i call, sys.calls[i]? = some call →
        ∃ name, ((sys.step (.proceed i)).step (.proceed i)).calls[i]? =
          some ⟨call.text, .returned name⟩) ∧
      (sys.run later).table.size = sys.table.size +
        ((sys.run later).answered.toFinset \ sys.table.texts.toList.toFinset).card := by
  obtain ⟨order, hf⟩ := hsys.follows
  obtain ⟨order', hlast⟩ := hf.run later
  have hpre : sys.table.texts.toList <+: (sys.run later).table.texts.toList := by
    rw [hlast.table, NameTable.after_append, ← hf.table]
    exact (hf.consistent.after order').2
  have hroom' : sys.table.size < NameTable.capacity :=
    Nat.lt_of_le_of_lt (NameTable.size_le_of_isPrefix hpre) hroom
  refine ⟨hf.consistent.nodup_texts, hf.consistent, hpre, ?_, fun i call h => hf.two_steps hroom' h,
    ?_⟩
  · rintro ⟨text, stage⟩ hmem name rfl
    have htext : (sys.run later).table.texts[name.index]? = some text :=
      NameTable.getElem?_of_isPrefix hpre (hf.calls _ hmem)
    refine ⟨NameTable.text_of_getElem? htext, ?_⟩
    rintro ⟨text', stage'⟩ hmem' name' rfl
    have htext' : (sys.run later).table.texts[name'.index]? = some text' := hlast.calls _ hmem'
    constructor
    · rintro rfl
      exact Option.some.inj (htext.symm.trans htext')
    · rintro rfl
      exact congrArg Name.mk (hlast.consistent.index_unique htext htext')
  · obtain ⟨hset, hsize⟩ := hf.size_eq_card hroom'
    obtain ⟨hset', hsize'⟩ := hlast.size_eq_card hroom
    -- The old texts are among the new ones, and the empty text is an old one.
    have hsubset : sys.table.texts.toList.toFinset ⊆
        (sys.run later).table.texts.toList.toFinset := by
      intro text htext
      rw [List.mem_toFinset] at htext ⊢
      exact hpre.subset htext
    have hnew : (sys.run later).table.texts.toList.toFinset \ sys.table.texts.toList.toFinset =
        (sys.run later).answered.toFinset \ sys.table.texts.toList.toFinset := by
      rw [hset', hset]
      exact Finset.insert_sdiff_of_mem _ (Finset.mem_insert_self _ _)
    rw [hsize', ← hset', hsize, ← hset, ← hnew, Nat.add_comm,
      Finset.card_sdiff_add_card_eq_card hsubset]

/-- Two calls for `x` miss one after the other, and the second of them writes first. -/
def raced : SharedTable :=
  new.run [.arrive "x", .arrive "x", .proceed 0, .proceed 1, .proceed 1]

/-- The first call writes last, and finds what the other has written. -/
theorem interleavings_intern_once_raced :
    raced.Reachable ∧ (raced.run [.proceed 0]).table.size < NameTable.capacity ∧
      raced.calls = [⟨"x", .missed⟩, ⟨"x", .returned ⟨1⟩⟩] ∧
      (raced.run [.proceed 0]).calls = [⟨"x", .returned ⟨1⟩⟩, ⟨"x", .returned ⟨1⟩⟩] ∧
      (raced.run [.proceed 0]).table.text ⟨1⟩ = "x" ∧
      (raced.run [.proceed 0]).table.size = raced.table.size := by
  have hreach : raced.Reachable := ⟨_, rfl⟩
  have hroom : (raced.run [.proceed 0]).table.size < NameTable.capacity := by decide +kernel
  have hcalls : raced.calls = [⟨"x", .missed⟩, ⟨"x", .returned ⟨1⟩⟩] := by decide +kernel
  have hlast : (raced.run [.proceed 0]).calls =
      [⟨"x", .returned ⟨1⟩⟩, ⟨"x", .returned ⟨1⟩⟩] := by decide +kernel
  obtain ⟨-, -, -, hreads, -, hgrown⟩ := interleavings_intern_once raced hreach [.proceed 0] hroom
  refine ⟨hreach, hroom, hcalls, hlast, ?_, ?_⟩
  · have hmem : (⟨"x", .returned ⟨1⟩⟩ : Call) ∈ raced.calls := by
      rw [hcalls]
      decide
    exact (hreads _ hmem _ rfl).1
  · have hnone : (raced.run [.proceed 0]).answered.toFinset \
        raced.table.texts.toList.toFinset = ∅ := by decide +kernel
    rw [hgrown, hnone]
    rfl

end SharedTable

end ScriptCore
