/-
Handles see their own table.

A handle is new, or it is a clone of another one. So each handle has an origin: itself if it is new,
and the origin of the other one if it is a clone. The steps alone settle who descends from whom
(`Lineage`), before there is any table.

What is proved is that the tables follow. The questions that are asked through the descendants of
one handle get the replies that a single new table gives to just these questions in this order. The
store of tables, with its owners by position, is compared with one table per origin (`Tracks`). A
question changes the table of one origin, a clone adds a handle to an origin, and a new handle is an
origin that nobody has asked yet; one step keeps the comparison (`Tracks.step`), and so does any
number of them (`Tracks.after`).
-/
import Mathlib.Logic.Function.Basic
import ScriptCore.NameTable.Handles

set_option autoImplicit false

namespace ScriptCore

/-! ## Questions and replies -/

/-- What a table can be asked. The two ways to intern differ on a full table only. -/
inductive Query where
  /-- Intern a text, and break off if the table is full. -/
  | intern (text : String)
  /-- Intern a text, and be told if the table is full. -/
  | tryIntern (text : String)
  | lookup (name : Name)
  | size
deriving DecidableEq, Repr

/-- What a table replies. -/
inductive Reply where
  | named (name : Name)
  | refused (overflow : NameOverflow)
  | brokeOff (message : String)
  | text (text : String)
  | size (count : Nat)
deriving DecidableEq, Repr

namespace NameTable

/-- The reply to a question, and the table after it. A refusal leaves the table as it is. -/
def ask (t : NameTable) : Query → Reply × NameTable
  | .intern s =>
    match t.intern s with
    | .ok (n, t') => (.named n, t')
    | .error overflow => (.brokeOff overflow.message, t)
  | .tryIntern s =>
    match t.intern s with
    | .ok (n, t') => (.named n, t')
    | .error overflow => (.refused overflow, t)
  | .lookup n => (.text (t.text n), t)
  | .size => (.size t.size, t)

/-- The replies to questions, one after the other. -/
def replies (t : NameTable) : List Query → List Reply
  | [] => []
  | q :: rest => (t.ask q).1 :: (t.ask q).2.replies rest

end NameTable

/-- What can be done with handles: clone the selected one, make a new one, select one, or ask a
question through the selected one. -/
inductive HandleStep where
  | share
  | separate
  | select (i : Nat)
  | ask (q : Query)
deriving DecidableEq, Repr

namespace NameHandles

variable (h : NameHandles)

/-- The table that a handle leads to. -/
def ownerOf (i : Nat) : Nat := h.owners.getD i 0

/-- The contents of a table. -/
def tableAt (k : Nat) : NameTable := h.tables.getD k NameTable.new

/-- Ask a question through the selected handle. -/
def ask : Query → Reply × NameHandles
  | .intern s =>
    match h.intern s with
    | .ok (n, h') => (.named n, h')
    | .error overflow => (.brokeOff overflow.message, h)
  | .tryIntern s =>
    match h.intern s with
    | .ok (n, h') => (.named n, h')
    | .error overflow => (.refused overflow, h)
  | .lookup n => (.text (h.table.text n), h)
  | .size => (.size h.table.size, h)

/-- Take a step. -/
def step : HandleStep → NameHandles
  | .share => h.share
  | .separate => h.separate
  | .select i => h.select i
  | .ask q => (h.ask q).2

/-- Steps, one after the other. -/
def after (steps : List HandleStep) : NameHandles := steps.foldl step h

end NameHandles

/-! ## Who descends from whom -/

/-- The origin of each handle, and the selected handle. -/
structure Lineage where
  origins : List Nat
  selected : Nat

namespace Lineage

/-- One handle that is its own origin. -/
def new : Lineage := ⟨[0], 0⟩

variable (l : Lineage)

/-- The handle that a handle descends from by cloning. -/
def origin (i : Nat) : Nat := l.origins.getD i 0

/-- Who descends from whom after a step. A clone has the origin of the handle it is made of, and a
new handle has itself. -/
def next : HandleStep → Lineage
  | .share => ⟨l.origins ++ [l.origin l.selected], l.origins.length⟩
  | .separate => ⟨l.origins ++ [l.origins.length], l.origins.length⟩
  | .select i => { l with selected := i % l.origins.length }
  | .ask _ => l

/-- Who descends from whom after steps. -/
def after (steps : List HandleStep) : Lineage := steps.foldl next l

end Lineage

/-- A question, the origin of the handle it was asked through, and the reply. -/
structure Exchange where
  origin : Nat
  query : Query
  reply : Reply
deriving DecidableEq, Repr

/-- The questions among the steps. Where a question goes is said by the lineage, and what the reply
is by the handles. -/
def NameHandles.exchanges (h : NameHandles) (l : Lineage) : List HandleStep → List Exchange
  | [] => []
  | .ask q :: rest => ⟨l.origin l.selected, q, (h.ask q).1⟩ :: (h.ask q).2.exchanges l rest
  | .share :: rest => h.share.exchanges (l.next .share) rest
  | .separate :: rest => h.separate.exchanges (l.next .separate) rest
  | .select i :: rest => (h.select i).exchanges (l.next (.select i)) rest

/-! ## A question asked through a handle -/

namespace NameHandles

variable {h : NameHandles}

/-- The reply comes from the table behind the selected handle. -/
theorem reply_ask (h : NameHandles) (q : Query) : (h.ask q).1 = (h.table.ask q).1 := by
  cases q with
  | intern s | tryIntern s =>
    simp only [ask, NameTable.ask, intern]
    rcases h.table.intern s with overflow | ⟨n, t⟩ <;> rfl
  | lookup n => rfl
  | size => rfl

/-- No handle is added, moved or selected by a question. -/
theorem owners_ask (h : NameHandles) (q : Query) :
    (h.ask q).2.owners = h.owners ∧ (h.ask q).2.selected = h.selected := by
  cases q with
  | intern s | tryIntern s =>
    simp only [ask, intern]
    rcases h.table.intern s with overflow | ⟨n, t⟩ <;> exact ⟨rfl, rfl⟩
  | lookup n => exact ⟨rfl, rfl⟩
  | size => exact ⟨rfl, rfl⟩

theorem setIfInBounds_table (h : NameHandles) :
    h.tables.setIfInBounds h.owner h.table = h.tables := by
  apply Array.ext_getElem?
  intro k
  rw [Array.getElem?_setIfInBounds, table, Array.getD_eq_getD_getElem?]
  by_cases hk : h.owner = k
  · subst hk
    by_cases hlt : h.owner < h.tables.size
    · simp [hlt]
    · simp [hlt]
  · rw [if_neg hk]

/-- The one table that a question can change is the table behind the selected handle. -/
theorem tables_ask (h : NameHandles) (q : Query) :
    (h.ask q).2.tables = h.tables.setIfInBounds h.owner (h.table.ask q).2 := by
  -- A question that adds no text puts back the table it has found.
  have hsame := setIfInBounds_table h
  cases q with
  | intern s | tryIntern s =>
    simp only [ask, NameTable.ask, intern]
    rcases h.table.intern s with overflow | ⟨n, t⟩
    · exact hsame.symm
    · rfl
  | lookup n => exact hsame.symm
  | size => exact hsame.symm

theorem tableAt_ask (howner : h.owner < h.tables.size) (q : Query) (k : Nat) :
    (h.ask q).2.tableAt k = if k = h.owner then (h.table.ask q).2 else h.tableAt k := by
  rw [tableAt, tables_ask, tableAt, Array.getD_eq_getD_getElem?, Array.getElem?_setIfInBounds,
    Array.getD_eq_getD_getElem?]
  by_cases hk : k = h.owner
  · rw [if_pos hk, if_pos hk.symm, if_pos howner, Option.getD_some]
  · rw [if_neg hk, if_neg (Ne.symm hk)]

end NameHandles

/-! ## One table for each origin -/

/-- The handles are those of the lineage, two of them lead to one table exactly if they have one
origin, and what they lead to is the table of that origin. An origin that is still to come has a new
table. -/
structure Tracks (h : NameHandles) (l : Lineage) (T : Nat → NameTable) : Prop where
  count : l.origins.length = h.size
  selected : l.selected = h.selected
  selected_lt : h.selected < h.size
  owner_lt : ∀ i, i < h.size → h.ownerOf i < h.tables.size
  origin_lt : ∀ i, i < h.size → l.origin i < h.size
  kin : ∀ i j, i < h.size → j < h.size → (h.ownerOf i = h.ownerOf j ↔ l.origin i = l.origin j)
  table : ∀ i, i < h.size → h.tableAt (h.ownerOf i) = T (l.origin i)
  unborn : ∀ r, h.size ≤ r → T r = NameTable.new

theorem tracks_new : Tracks .new .new fun _ => .new := by
  have hzero : ∀ i, i < NameHandles.new.size → i = 0 := by
    intro i hi
    have hone : NameHandles.new.size = 1 := rfl
    omega
  refine ⟨rfl, rfl, Nat.one_pos, ?_, ?_, ?_, ?_, fun _ _ => rfl⟩
  · intro i hi
    rw [hzero i hi]
    exact Nat.one_pos
  · intro i hi
    rw [hzero i hi]
    exact Nat.one_pos
  · intro i j hi hj
    rw [hzero i hi, hzero j hj]
    exact ⟨fun _ => rfl, fun _ => rfl⟩
  · intro i hi
    rw [hzero i hi]
    rfl

namespace Tracks

variable {h : NameHandles} {l : Lineage} {T : Nat → NameTable}

/-- What the selected handle leads to. -/
theorem table_selected (hT : Tracks h l T) : h.table = T (l.origin l.selected) := by
  rw [hT.selected]
  exact hT.table h.selected hT.selected_lt

/-- A question goes to the table of one origin. -/
theorem ask (hT : Tracks h l T) (q : Query) :
    Tracks (h.ask q).2 l (Function.update T (l.origin l.selected)
      ((T (l.origin l.selected)).ask q).2) := by
  obtain ⟨howners, hselected⟩ := h.owners_ask q
  have hsize : (h.ask q).2.size = h.size := congrArg Array.size howners
  have hownerOf : ∀ i, (h.ask q).2.ownerOf i = h.ownerOf i := by
    intro i
    rw [NameHandles.ownerOf, howners, NameHandles.ownerOf]
  have htables : (h.ask q).2.tables.size = h.tables.size := by
    rw [h.tables_ask, Array.size_setIfInBounds]
  have howner : h.owner < h.tables.size := hT.owner_lt h.selected hT.selected_lt
  refine ⟨?_, ?_, ?_, ?_, ?_, ?_, ?_, ?_⟩
  · rw [hsize, hT.count]
  · rw [hselected, hT.selected]
  · rw [hselected, hsize]
    exact hT.selected_lt
  · intro i hi
    rw [hsize] at hi
    rw [hownerOf, htables]
    exact hT.owner_lt i hi
  · intro i hi
    rw [hsize] at hi ⊢
    exact hT.origin_lt i hi
  · intro i j hi hj
    rw [hsize] at hi hj
    rw [hownerOf, hownerOf]
    exact hT.kin i j hi hj
  · intro i hi
    rw [hsize] at hi
    have hkin : h.ownerOf i = h.owner ↔ l.origin i = l.origin h.selected :=
      hT.kin i h.selected hi hT.selected_lt
    rw [hownerOf, NameHandles.tableAt_ask howner, hT.table_selected, hT.selected]
    -- Handles of the origin that was asked see the change, all others see what they saw.
    by_cases horigin : l.origin i = l.origin h.selected
    · rw [if_pos (hkin.2 horigin), horigin, Function.update_self]
    · rw [if_neg (fun hsame => horigin (hkin.1 hsame)), Function.update_of_ne horigin]
      exact hT.table i hi
  · intro r hr
    rw [hsize] at hr
    have hlt := hT.origin_lt h.selected hT.selected_lt
    rw [hT.selected, Function.update_of_ne (by omega)]
    exact hT.unborn r hr

/-- A handle is added and selected. It shares the table of a handle with its origin, or both its
origin and its table are new. -/
theorem add (hT : Tracks h l T) (h' : NameHandles) (owner origin : Nat)
    (howners : h'.owners = h.owners.push owner) (hselected : h'.selected = h.size)
    (htables : h.tables.size ≤ h'.tables.size)
    (htableAt : ∀ k, k < h.tables.size → h'.tableAt k = h.tableAt k)
    (howner : owner < h'.tables.size) (horigin : origin ≤ h.size)
    (hkin : ∀ i, i < h.size → (h.ownerOf i = owner ↔ l.origin i = origin))
    (htable : h'.tableAt owner = T origin) :
    Tracks h' ⟨l.origins ++ [origin], l.origins.length⟩ T := by
  have hsize : h'.size = h.size + 1 := by
    rw [NameHandles.size, howners, Array.size_push, NameHandles.size]
  have holdOwner : ∀ i, i < h.size → h'.ownerOf i = h.ownerOf i := by
    intro i hi
    have hne : i ≠ h.owners.size := Nat.ne_of_lt hi
    rw [NameHandles.ownerOf, NameHandles.ownerOf, howners, Array.getD_eq_getD_getElem?,
      Array.getD_eq_getD_getElem?, Array.getElem?_push, if_neg hne]
  have hnewOwner : h'.ownerOf h.size = owner := by
    rw [NameHandles.ownerOf, howners, Array.getD_eq_getD_getElem?, NameHandles.size,
      Array.getElem?_push_size, Option.getD_some]
  have holdOrigin : ∀ i, i < h.size →
      (⟨l.origins ++ [origin], l.origins.length⟩ : Lineage).origin i = l.origin i := by
    intro i hi
    rw [← hT.count] at hi
    rw [Lineage.origin, Lineage.origin, List.getD_eq_getElem?_getD, List.getD_eq_getElem?_getD,
      List.getElem?_append_left hi]
  have hnewOrigin :
      (⟨l.origins ++ [origin], l.origins.length⟩ : Lineage).origin h.size = origin := by
    rw [Lineage.origin, ← hT.count, List.getD_eq_getElem?_getD, List.getElem?_concat_length,
      Option.getD_some]
  have hcases : ∀ i, i < h'.size → i < h.size ∨ i = h.size := by
    intro i hi
    omega
  refine ⟨?_, ?_, ?_, ?_, ?_, ?_, ?_, ?_⟩
  · rw [List.length_append, hT.count, hsize, List.length_singleton]
  · rw [hselected, hT.count]
  · omega
  · intro i hi
    rcases hcases i hi with hold | rfl
    · rw [holdOwner i hold]
      exact Nat.lt_of_lt_of_le (hT.owner_lt i hold) htables
    · rw [hnewOwner]
      exact howner
  · intro i hi
    rcases hcases i hi with hold | rfl
    · have hlt := hT.origin_lt i hold
      rw [holdOrigin i hold]
      omega
    · rw [hnewOrigin]
      omega
  · intro i j hi hj
    rcases hcases i hi with hold | rfl <;> rcases hcases j hj with hold' | rfl
    · rw [holdOwner i hold, holdOwner j hold', holdOrigin i hold, holdOrigin j hold']
      exact hT.kin i j hold hold'
    · rw [holdOwner i hold, hnewOwner, holdOrigin i hold, hnewOrigin]
      exact hkin i hold
    · rw [holdOwner j hold', hnewOwner, holdOrigin j hold', hnewOrigin, eq_comm, hkin j hold',
        eq_comm]
    · exact ⟨fun _ => rfl, fun _ => rfl⟩
  · intro i hi
    rcases hcases i hi with hold | rfl
    · rw [holdOwner i hold, holdOrigin i hold, htableAt _ (hT.owner_lt i hold)]
      exact hT.table i hold
    · rw [hnewOwner, hnewOrigin]
      exact htable
  · intro r hr
    apply hT.unborn
    omega

theorem share (hT : Tracks h l T) : Tracks h.share (l.next .share) T := by
  have hlt := hT.selected_lt
  rw [Lineage.next, hT.selected]
  apply hT.add h.share h.owner _ rfl rfl (Nat.le_refl _) (fun _ _ => rfl)
  · exact hT.owner_lt h.selected hlt
  · exact Nat.le_of_lt (hT.origin_lt h.selected hlt)
  · intro i hi
    exact hT.kin i h.selected hi hlt
  · exact hT.table h.selected hlt

theorem separate (hT : Tracks h l T) : Tracks h.separate (l.next .separate) T := by
  have hsize : h.separate.tables.size = h.tables.size + 1 := Array.size_push _
  have htableAt : ∀ k, h.separate.tableAt k =
      if k = h.tables.size then NameTable.new else h.tableAt k := by
    intro k
    rw [NameHandles.tableAt, NameHandles.tableAt, NameHandles.separate,
      Array.getD_eq_getD_getElem?, Array.getD_eq_getD_getElem?, Array.getElem?_push]
    by_cases hk : k = h.tables.size
    · rw [if_pos hk, if_pos hk, Option.getD_some]
    · rw [if_neg hk, if_neg hk]
  rw [Lineage.next]
  apply hT.add h.separate h.tables.size _ rfl rfl (by omega)
  · intro k hk
    rw [htableAt, if_neg (Nat.ne_of_lt hk)]
  · omega
  · exact Nat.le_of_eq hT.count
  · -- No earlier handle leads to the new table, and none descends from the new handle.
    intro i hi
    have howner := hT.owner_lt i hi
    have horigin := hT.origin_lt i hi
    have hcount := hT.count
    omega
  · rw [htableAt, if_pos rfl, hT.count, hT.unborn _ (Nat.le_refl _)]

theorem select (hT : Tracks h l T) (i : Nat) : Tracks (h.select i) (l.next (.select i)) T := by
  have hpos : 0 < h.size := Nat.lt_of_le_of_lt (Nat.zero_le _) hT.selected_lt
  refine ⟨hT.count, ?_, Nat.mod_lt i hpos, hT.owner_lt, hT.origin_lt, hT.kin, hT.table, hT.unborn⟩
  exact congrArg (i % ·) hT.count

/-- **One step.** The handles still follow the lineage, with the tables of some origins changed. -/
theorem step (hT : Tracks h l T) (step : HandleStep) :
    ∃ T', Tracks (h.step step) (l.next step) T' := by
  cases step with
  | share => exact ⟨T, hT.share⟩
  | separate => exact ⟨T, hT.separate⟩
  | select i => exact ⟨T, hT.select i⟩
  | ask q => exact ⟨_, hT.ask q⟩

/-- **Any number of steps.** -/
theorem after (hT : Tracks h l T) (steps : List HandleStep) :
    ∃ T', Tracks (h.after steps) (l.after steps) T' := by
  induction steps generalizing h l T with
  | nil => exact ⟨T, hT⟩
  | cons step rest ih =>
    obtain ⟨T', hT'⟩ := hT.step step
    exact ih hT'

/-- The exchanges of one origin are those with its table. The induction is on the steps; a question
to this origin is the next question to its table, and no other step touches it. -/
theorem replies_eq (hT : Tracks h l T) (steps : List HandleStep) (r : Nat) :
    ((h.exchanges l steps).filter (·.origin = r)).map (·.reply) =
      (T r).replies (((h.exchanges l steps).filter (·.origin = r)).map (·.query)) := by
  induction steps generalizing h l T with
  | nil => rfl
  | cons step rest ih =>
    cases step with
    | share => exact ih hT.share
    | separate => exact ih hT.separate
    | select i => exact ih (hT.select i)
    | ask q =>
      have hrest := ih (hT.ask q)
      rw [NameHandles.exchanges]
      by_cases hr : l.origin l.selected = r
      · subst hr
        rw [Function.update_self] at hrest
        rw [List.filter_cons_of_pos (by simp), List.map_cons, List.map_cons, NameTable.replies,
          hrest, h.reply_ask, hT.table_selected]
      · rw [Function.update_of_ne (Ne.symm hr)] at hrest
        rw [List.filter_cons_of_neg (by simpa using hr)]
        exact hrest

end Tracks

/-! ## From the outside -/

namespace NameHandles

/-- **Handles see exactly their own table.** Take any steps: clone the selected handle, make a new
one, select one, ask a question through the selected one. The questions asked through the
descendants of one handle get the replies that one new table gives to these questions alone, one
after the other. And after the steps, a question has the same reply through every handle with that
origin, made when and from whom it may be. -/
theorem handles_see_their_table (steps : List HandleStep) (origin : Nat) :
    let exchanges := (new.exchanges .new steps).filter (·.origin = origin)
    exchanges.map (·.reply) = NameTable.new.replies (exchanges.map (·.query)) ∧
      ∀ i j, i < (new.after steps).size → j < (new.after steps).size →
        (Lineage.new.after steps).origin i = origin →
        (Lineage.new.after steps).origin j = origin →
        ∀ q, (((new.after steps).select i).ask q).1 = (((new.after steps).select j).ask q).1 := by
  refine ⟨tracks_new.replies_eq steps origin, ?_⟩
  intro i j hi hj horigin horigin' q
  obtain ⟨T, hT⟩ := tracks_new.after steps
  -- Selecting a handle that is there selects that handle.
  have htable : ∀ k, k < (new.after steps).size →
      ((new.after steps).select k).table = T ((Lineage.new.after steps).origin k) := by
    intro k hk
    have hselect := (hT.select k).table_selected
    rwa [Lineage.next, hT.count, Nat.mod_eq_of_lt hk] at hselect
  rw [reply_ask, reply_ask, htable i hi, htable j hj, horigin, horigin']

/-- A clone, a separate handle that interns the same text, and a second clone of the first handle,
made after the first clone has interned `y`. -/
def mixed : List HandleStep :=
  [.ask (.intern "x"), .share, .ask (.intern "y"), .separate, .ask (.tryIntern "y"), .select 0,
    .share, .ask .size, .select 1, .ask (.lookup ⟨2⟩)]

/-- What one clone has interned the other one finds, and the separate table has given `y` a name of
its own. -/
theorem handles_see_their_table_mixed :
    ((new.exchanges .new mixed).filter (·.origin = 0)).map (·.reply) =
        [.named ⟨1⟩, .named ⟨2⟩, .size 3, .text "y"] ∧
      ((new.exchanges .new mixed).filter (·.origin = 0)).map (·.reply) =
        NameTable.new.replies [.intern "x", .intern "y", .size, .lookup ⟨2⟩] ∧
      ((new.exchanges .new mixed).filter (·.origin = 2)).map (·.reply) = [.named ⟨1⟩] ∧
      1 < (new.after mixed).size ∧ 3 < (new.after mixed).size ∧
      (Lineage.new.after mixed).origin 1 = 0 ∧ (Lineage.new.after mixed).origin 3 = 0 ∧
      ∀ q, (((new.after mixed).select 1).ask q).1 = (((new.after mixed).select 3).ask q).1 := by
  have hreplies : ((new.exchanges .new mixed).filter (·.origin = 0)).map (·.reply) =
      [.named ⟨1⟩, .named ⟨2⟩, .size 3, .text "y"] := by decide +kernel
  have hqueries : ((new.exchanges .new mixed).filter (·.origin = 0)).map (·.query) =
      [.intern "x", .intern "y", .size, .lookup ⟨2⟩] := by decide +kernel
  obtain ⟨htable, hsame⟩ := handles_see_their_table mixed 0
  rw [hqueries] at htable
  have hfirst : 1 < (new.after mixed).size := by decide +kernel
  have hsecond : 3 < (new.after mixed).size := by decide +kernel
  exact ⟨hreplies, htable, by decide +kernel, hfirst, hsecond, rfl, rfl,
    hsame 1 3 hfirst hsecond rfl rfl⟩

end NameHandles

end ScriptCore
