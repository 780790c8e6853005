/-
Groupings are transparent.

A grouping hands on the value of its inner expression and does nothing else, so a reference to it
may as well lead to what it stands around. Redirecting all references of an arena in this way, at
once and past chains of groupings of any length, gives a program that no run can tell from the
first: values, errors with their lines, missing expressions, scopes, lines and events are the same.
The one thing that tells is the native stack. A grouping costs frames, so the stack may have to grow
for the groupings alone, and the event of that is missing when they are gone (`growth_tells`).

Where a chain of groupings leads is said by a relation (`Arena.Ungroups`) and computed by a function
(`Arena.core`). The redirected arena has no new paths, only shortcuts on old ones
(`transGen_of_operand_ungrouped`), so it has no cycles either and the value of a node is again made
of the values of its operands. From there the two arenas are compared node by node
(`evaluate_core`).
-/
import ScriptCore.Proofs.StackGrowth

set_option autoImplicit false

namespace ScriptCore

/-! ## Redirected references -/

namespace Form

def isGrouping : Form → Bool
  | grouping _ => true
  | _ => false

/-- The form with its operands at other positions. -/
def redirect (target : NodeId → NodeId) : Form → Form
  | literal value => .literal value
  | grouping inner => .grouping (target inner)
  | unary op operand => .unary op (target operand)
  | binary op left right => .binary op (target left) (target right)
  | read name => .read name
  | assign name value => .assign name (target value)

theorem children_redirect (target : NodeId → NodeId) (form : Form) :
    (form.redirect target).children = form.children.map target := by
  cases form <;> rfl

theorem isGrouping_redirect (target : NodeId → NodeId) (form : Form) :
    (form.redirect target).isGrouping = form.isGrouping := by
  cases form <;> rfl

theorem isGrouping_iff (form : Form) :
    form.isGrouping = true ↔ ∃ inner, form = .grouping inner := by
  cases form <;> simp [isGrouping]

end Form

/-- The node with its operands at other positions. A grouping may be on any line; every other node
keeps its own. -/
def Node.redirect (target : NodeId → NodeId) (groupingLine : Nat) (node : Node) : Node :=
  ⟨node.form.redirect target, if node.form.isGrouping then groupingLine else node.line⟩

namespace Stmt

mutual

/-- The statement with its expressions at other positions. -/
def redirect (target : NodeId → NodeId) : Stmt → Stmt
  | .expression value line => .expression (target value) line
  | .print value line => .print (target value) line
  | .declare name init line => .declare name (init.map target) line
  | .block body line => .block (redirectAll target body) line

/-- Statements with their expressions at other positions. -/
def redirectAll (target : NodeId → NodeId) : List Stmt → List Stmt
  | [] => []
  | stmt :: rest => redirect target stmt :: redirectAll target rest

end

theorem length_redirectAll (target : NodeId → NodeId) (stmts : List Stmt) :
    (redirectAll target stmts).length = stmts.length := by
  induction stmts with
  | nil => rfl
  | cons stmt rest ih => rw [redirectAll, List.length_cons, ih, List.length_cons]

end Stmt

/-! ## Past the groupings -/

namespace Arena

/-- The arena holds a grouping at the position. -/
def Groups (a : Arena) (id : NodeId) : Prop :=
  ∃ node, a.get? id = some node ∧ node.form.isGrouping = true

/-- From the first position a chain of groupings leads to the second, which is the first one on it
that is no grouping. It may be a position that the arena does not hold. -/
inductive Ungroups (a : Arena) : NodeId → NodeId → Prop where
  | here {id : NodeId} : ¬ a.Groups id → Ungroups a id id
  | through {id inner last : NodeId} {line : Nat} : a.get? id = some ⟨.grouping inner, line⟩ →
      Ungroups a inner last → Ungroups a id last

/-- The position behind at most the given number of groupings. -/
def coreWithin (a : Arena) : Nat → NodeId → NodeId
  | 0, id => id
  | groupings + 1, id =>
    match a.get? id with
    | some ⟨.grouping inner, _⟩ => a.coreWithin groupings inner
    | _ => id

/-- The position that the groupings at a position stand around. There are no more groupings to pass
than nodes. -/
def core (a : Arena) (id : NodeId) : NodeId := a.coreWithin a.size id

/-- The arena with every reference redirected past the groupings it leads to, and with its groupings
on the given lines. -/
def ungrouped (a : Arena) (lines : NodeId → Nat) : Arena :=
  ⟨a.nodes.mapIdx fun i node => node.redirect a.core (lines ⟨i⟩)⟩

variable {a : Arena} {id inner : NodeId}

theorem groups_of_get? {line : Nat} (hget : a.get? id = some ⟨.grouping inner, line⟩) :
    a.Groups id := ⟨_, hget, rfl⟩

theorem Groups.exists_get? (h : a.Groups id) :
    ∃ inner line, a.get? id = some ⟨.grouping inner, line⟩ := by
  obtain ⟨⟨form, line⟩, hget, hform⟩ := h
  obtain ⟨inner, rfl⟩ := (Form.isGrouping_iff form).1 hform
  exact ⟨inner, line, hget⟩

namespace Ungroups

variable {last last' : NodeId}

theorem unique (h : a.Ungroups id last) (h' : a.Ungroups id last') : last = last' := by
  induction h with
  | here hother =>
    rcases h' with - | ⟨hget, -⟩
    · rfl
    · exact absurd (groups_of_get? hget) hother
  | through hget _ ih =>
    rcases h' with hother | ⟨hget', hrest⟩
    · exact absurd (groups_of_get? hget) hother
    · rw [hget] at hget'
      cases hget'
      exact ih hrest

theorem not_groups (h : a.Ungroups id last) : ¬ a.Groups last := by
  induction h with
  | here hother => exact hother
  | through _ _ ih => exact ih

/-- What is reached past groupings is reached. -/
theorem reaches (h : a.Ungroups id last) : Relation.ReflTransGen a.Operand last id := by
  induction h with
  | here => exact .refl
  | through hget _ ih => exact ih.tail ⟨_, hget, List.mem_singleton.2 rfl⟩

end Ungroups

/-- Where chains of references are short enough, the function finds the end of the groupings. -/
theorem ungroups_coreWithin {n : Nat} (hid : a.Within (n + 1) id) :
    a.Ungroups id (a.coreWithin n id) := by
  induction n generalizing id with
  | zero =>
    -- A grouping would have its inner expression as an operand.
    refine .here fun hgroups => ?_
    obtain ⟨inner, line, hget⟩ := hgroups.exists_get?
    exact hid inner ⟨_, hget, List.mem_singleton.2 rfl⟩
  | succ n ih =>
    rw [coreWithin]
    by_cases hgroups : a.Groups id
    · obtain ⟨inner, line, hget⟩ := hgroups.exists_get?
      rw [hget]
      exact .through hget (ih (hid inner ⟨_, hget, List.mem_singleton.2 rfl⟩))
    · split
      · next hget => exact absurd (groups_of_get? hget) hgroups
      · exact .here hgroups

section Acyclic

variable (ha : a.Acyclic)

include ha

theorem Acyclic.ungroups_core (id : NodeId) : a.Ungroups id (a.core id) :=
  ungroups_coreWithin (ha.within id)

theorem Acyclic.core_grouping {line : Nat} (hget : a.get? id = some ⟨.grouping inner, line⟩) :
    a.core id = a.core inner :=
  (ha.ungroups_core id).unique (.through hget (ha.ungroups_core inner))

theorem Acyclic.core_eq_self (hother : ¬ a.Groups id) : a.core id = id :=
  (ha.ungroups_core id).unique (.here hother)

end Acyclic

/-! ## The redirected arena -/

variable {lines : NodeId → Nat}

theorem size_ungrouped (a : Arena) (lines : NodeId → Nat) : (a.ungrouped lines).size = a.size :=
  Array.size_mapIdx

theorem get?_ungrouped (a : Arena) (lines : NodeId → Nat) (id : NodeId) :
    (a.ungrouped lines).get? id = (a.get? id).map (Node.redirect a.core (lines id)) :=
  Array.getElem?_mapIdx

/-- An operand in the redirected arena is the core of one in the arena. -/
theorem exists_operand_of_ungrouped {child parent : NodeId}
    (h : (a.ungrouped lines).Operand child parent) :
    ∃ operand, a.Operand operand parent ∧ child = a.core operand := by
  obtain ⟨node', hget', hchild⟩ := h
  rw [get?_ungrouped, Option.map_eq_some_iff] at hget'
  obtain ⟨node, hget, rfl⟩ := hget'
  rw [Node.redirect, Form.children_redirect, List.mem_map] at hchild
  obtain ⟨operand, hmem, rfl⟩ := hchild
  exact ⟨operand, ⟨node, hget, hmem⟩, rfl⟩

/-- A redirected reference takes a shortcut on a path that was there. -/
theorem Acyclic.transGen_of_operand_ungrouped (ha : a.Acyclic) {child parent : NodeId}
    (h : (a.ungrouped lines).Operand child parent) : Relation.TransGen a.Operand child parent := by
  obtain ⟨operand, hoperand, rfl⟩ := exists_operand_of_ungrouped h
  exact .tail' (ha.ungroups_core operand).reaches hoperand

theorem Acyclic.ungrouped (ha : a.Acyclic) (lines : NodeId → Nat) :
    (a.ungrouped lines).Acyclic := by
  have hpaths : Relation.TransGen (a.ungrouped lines).Operand ≤ Relation.TransGen a.Operand :=
    Relation.TransGen.closed fun _ _ h => ha.transGen_of_operand_ungrouped h
  intro id hcycle
  exact ha id (hpaths id id hcycle)

/-- No reference leads to a grouping any more. -/
theorem Acyclic.not_groups_of_operand_ungrouped (ha : a.Acyclic) {child parent : NodeId}
    (h : (a.ungrouped lines).Operand child parent) : ¬ (a.ungrouped lines).Groups child := by
  obtain ⟨operand, -, rfl⟩ := exists_operand_of_ungrouped h
  rintro ⟨node', hget', hgroups⟩
  rw [get?_ungrouped, Option.map_eq_some_iff] at hget'
  obtain ⟨node, hget, rfl⟩ := hget'
  rw [Node.redirect, Form.isGrouping_redirect] at hgroups
  exact (ha.ungroups_core operand).not_groups ⟨node, hget, hgroups⟩

end Arena

/-! ## Runs over it -/

namespace Program

/-- The program with its references redirected past the groupings they lead to. -/
def ungrouped (p : Program) (lines : NodeId → Nat) : Program :=
  { p with arena := p.arena.ungrouped lines }

variable {p : Program}

/-- A redirected node does with the values at the new positions what the node does with the values
at the old ones. Only a grouping may have changed its line, and it makes no use of it. -/
theorem evalNode_redirect (p : Program) (lines : NodeId → Nat)
    (ev : NodeId → State → Outcome Value) (target : NodeId → NodeId) (line : Nat) (node : Node)
    (st : State) :
    (p.ungrouped lines).evalNode ev (node.redirect target line) st =
      p.evalNode (fun id => ev (target id)) node st := by
  obtain ⟨form, own⟩ := node
  cases form <;> rfl

section Acyclic

variable (hp : p.arena.Acyclic) (lines : NodeId → Nat)

include hp

/-- **What groupings stand around has the value that they have.** The induction is along the
references of the first arena. -/
theorem evaluate_core (id : NodeId) (st : State) :
    (p.ungrouped lines).evaluate (p.arena.core id) st = p.evaluate id st := by
  have hp' : (p.ungrouped lines).arena.Acyclic := hp.ungrouped lines
  induction id using hp.induct generalizing st with
  | missing id hget =>
    have hother : ¬ p.arena.Groups id := by
      rintro ⟨node, hnode, -⟩
      rw [hget] at hnode
      cases hnode
    have hget' : (p.ungrouped lines).arena.get? id = none := by
      rw [ungrouped, Arena.get?_ungrouped, hget, Option.map_none]
    have hsize : (p.ungrouped lines).arena.size = p.arena.size := p.arena.size_ungrouped lines
    rw [hp.core_eq_self hother, evaluate_eq hp', evaluate_eq hp, hget', hget]
    simp only [missing, hsize]
  | node id form line hget ih =>
    by_cases hgroups : p.arena.Groups id
    · -- Both positions have the core of the inner expression.
      obtain ⟨inner, line', hget'⟩ := hgroups.exists_get?
      rw [hget] at hget'
      cases hget'
      rw [hp.core_grouping hget, ih inner (List.mem_singleton.2 rfl), evaluate_eq hp id, hget]
      rfl
    · have hget' : (p.ungrouped lines).arena.get? id =
          some (Node.redirect p.arena.core (lines id) ⟨form, line⟩) := by
        rw [ungrouped, Arena.get?_ungrouped, hget, Option.map_some]
      rw [hp.core_eq_self hgroups, evaluate_eq hp', evaluate_eq hp, hget', hget]
      simp only [evalNode_redirect]
      exact evalNode_congr (fun child hchild st => ih child hchild st) st

/-- A reference that is not redirected leads to the same value: what it refers to is. -/
theorem evaluate_ungrouped (id : NodeId) (st : State) :
    (p.ungrouped lines).evaluate id st = p.evaluate id st := by
  have hp' : (p.ungrouped lines).arena.Acyclic := hp.ungrouped lines
  by_cases hgroups : p.arena.Groups id
  · obtain ⟨inner, line, hget⟩ := hgroups.exists_get?
    have hget' : (p.ungrouped lines).arena.get? id =
        some (Node.redirect p.arena.core (lines id) ⟨.grouping inner, line⟩) := by
      rw [ungrouped, Arena.get?_ungrouped, hget, Option.map_some]
    rw [evaluate_eq hp', evaluate_eq hp, hget', hget]
    exact evaluate_core hp lines inner st
  · rw [← evaluate_core hp lines id st, hp.core_eq_self hgroups]

end Acyclic

/-! A statement looks at the arena through the values of its expressions alone. -/

/-- Expressions of one program have the values that expressions at other positions have in
another. -/
def Redirects (p : Program) (target : NodeId → NodeId) (p' : Program) : Prop :=
  ∀ id st, p'.evaluate (target id) st = p.evaluate id st

namespace Redirects

variable {p' : Program} {target : NodeId → NodeId}

theorem initialValue (h : p.Redirects target p') (init : Option NodeId) (st : State) :
    p'.initialValue (init.map target) st = p.initialValue init st := by
  rcases init with _ | id
  · rfl
  · exact h id st

mutual

theorem execute (h : p.Redirects target p') : (stmt : Stmt) → (st : State) →
    p'.execute (stmt.redirect target) st = p.execute stmt st
  | .expression id _, st => by
    rw [Stmt.redirect, Program.execute, Program.execute, h]
  | .print id _, st => by
    rw [Stmt.redirect, Program.execute, Program.execute, h]
  | .declare name init _, st => by
    rw [Stmt.redirect, Program.execute, Program.execute, h.initialValue]
  | .block body _, st => by
    rw [Stmt.redirect, Program.execute, Program.execute, executeAll h body]

theorem executeAll (h : p.Redirects target p') : (stmts : List Stmt) → (st : State) →
    p'.executeAll (Stmt.redirectAll target stmts) st = p.executeAll stmts st
  | [], st => by rw [Stmt.redirectAll, executeAll_nil, executeAll_nil]
  | stmt :: rest, st => by
    rw [Stmt.redirectAll, executeAll_cons, executeAll_cons, execute h stmt]
    simp only [executeAll h rest]

end

theorem executeBlock (h : p.Redirects target p') (body : List Stmt) (st : State) :
    p'.executeBlock (Stmt.redirectAll target body) st = p.executeBlock body st := by
  rw [Program.executeBlock, Program.executeBlock, h.executeAll]

theorem interpret (h : p.Redirects target p') (stmts : List Stmt) (st : State) :
    p'.interpret (Stmt.redirectAll target stmts) st = p.interpret stmts st := by
  rw [Program.interpret, Program.interpret, h.executeAll, Stmt.length_redirectAll]

end Redirects

/-- **Groupings have no effect.** In an arena without cycles, every reference is redirected to the
end of the groupings it leads to, and the ids in statements likewise; the groupings themselves are
put on any lines. Then no reference leads to a grouping, and an expression, a statement, a block or
a program runs as before, from every state: the whole outcome is the same. It is also the same on
native stacks, whatever these are and wherever the two runs start on them, but for the events of
their growth. -/
theorem runs_ignore_groupings (p : Program) (hp : p.arena.Acyclic) (lines : NodeId → Nat)
    (st : State) :
    let plain := p.ungrouped lines
    let core := p.arena.core
    ((∀ id, p.arena.Ungroups id (core id)) ∧ plain.arena.size = p.arena.size ∧
      ∀ child parent, plain.arena.Operand child parent → ¬ plain.arena.Groups child) ∧
    ((∀ id, plain.evaluate (core id) st = p.evaluate id st ∧
        plain.evaluate id st = p.evaluate id st) ∧
      (∀ stmt, plain.execute (stmt.redirect core) st = p.execute stmt st) ∧
      (∀ body, plain.executeBlock (Stmt.redirectAll core body) st = p.executeBlock body st) ∧
      ∀ stmts, plain.interpret (Stmt.redirectAll core stmts) st = p.interpret stmts st) ∧
    ∀ (stack stack' : NativeStack) (place : stack.Place) (place' : stack'.Place),
      (∀ id, (plain.evaluateOn stack' (core id) place' st).withoutGrowth =
        (p.evaluateOn stack id place st).withoutGrowth) ∧
      (∀ stmt, (plain.executeOn stack' (stmt.redirect core) place' st).withoutGrowth =
        (p.executeOn stack stmt place st).withoutGrowth) ∧
      (∀ body, (plain.executeBlockOn stack' (Stmt.redirectAll core body) place' st).withoutGrowth =
        (p.executeBlockOn stack body place st).withoutGrowth) ∧
      ∀ stmts, (plain.interpretOn stack' (Stmt.redirectAll core stmts) place' st).withoutGrowth =
        (p.interpretOn stack stmts place st).withoutGrowth := by
  intro plain core
  have hcore : p.Redirects core plain := evaluate_core hp lines
  refine ⟨⟨hp.ungroups_core, p.arena.size_ungrouped lines, ?_⟩, ⟨?_, ?_, ?_, ?_⟩, ?_⟩
  · intro child parent hoperand
    exact hp.not_groups_of_operand_ungrouped hoperand
  · intro id
    exact ⟨hcore id st, evaluate_ungrouped hp lines id st⟩
  · intro stmt
    exact hcore.execute stmt st
  · intro body
    exact hcore.executeBlock body st
  · intro stmts
    exact hcore.interpret stmts st
  · intro stack stack' place place'
    -- Growth aside, both runs are those that take no notice of a stack.
    obtain ⟨hexpr, hstmt, hblock, hprogram⟩ := runs_ignore_stack p stack place st
    obtain ⟨hexpr', hstmt', hblock', hprogram'⟩ := runs_ignore_stack plain stack' place' st
    refine ⟨fun id => ?_, fun stmt => ?_, fun body => ?_, fun stmts => ?_⟩
    · rw [hexpr, hexpr', hcore]
    · rw [hstmt, hstmt', hcore.execute]
    · rw [hblock, hblock', hcore.executeBlock]
    · rw [hprogram, hprogram', hcore.interpret]

/-- A difference whose operands stand in groupings, the left one in two. Both operands are the same
assignment in the end, and another grouping stands around nothing. -/
def parenthesized : Program where
  names := tangled.names
  arena := ⟨#[⟨.binary .sub ⟨1⟩ ⟨2⟩, 1⟩, ⟨.grouping ⟨2⟩, 2⟩, ⟨.grouping ⟨3⟩, 3⟩,
    ⟨.assign ⟨1⟩ ⟨5⟩, 4⟩, ⟨.grouping ⟨9⟩, 5⟩, ⟨.grouping ⟨6⟩, 6⟩, ⟨.literal (.boolean true), 7⟩]⟩

theorem acyclic_parenthesized : parenthesized.arena.Acyclic :=
  Arena.acyclic_of_rank (fun i => #[5, 4, 3, 2, 1, 1, 0].getD i 0) (by decide)

/-- A stack whose places are the bytes that are left, with frames of 512 bytes. -/
def countedStack : NativeStack where
  Place := Nat
  room? := some
  call _ left := left - 512
  grow zone segment left := if left < zone then segment else left

/-- The value is printed, then a missing expression ends a block, with the groupings all on line
`8`. The same happens without them; the subtraction fails on its own line either way. On a stack
with little room the groupings make it grow, and all other events are the same. -/
theorem runs_ignore_groupings_parenthesized :
    let plain := parenthesized.ungrouped fun _ => 8
    let st : State := ⟨Env.new.define ⟨1⟩ .nil, .new .emptyBuffer, #[]⟩
    let left : countedStack.Place := (68000 : Nat)
    parenthesized.arena.Acyclic ∧
      plain.arena = ⟨#[⟨.binary .sub ⟨3⟩ ⟨3⟩, 1⟩, ⟨.grouping ⟨3⟩, 8⟩, ⟨.grouping ⟨3⟩, 8⟩,
        ⟨.assign ⟨1⟩ ⟨6⟩, 4⟩, ⟨.grouping ⟨9⟩, 8⟩, ⟨.grouping ⟨6⟩, 8⟩,
        ⟨.literal (.boolean true), 7⟩]⟩ ∧
      plain.evaluate ⟨0⟩ st = parenthesized.evaluate ⟨0⟩ st ∧
      (parenthesized.evaluate ⟨0⟩ st).result =
        .error (.error ⟨.typeMismatch .numbers, "Operands must be numbers", some 1⟩) ∧
      plain.interpret [.block [.print ⟨3⟩ 1, .expression ⟨9⟩ 2] 1] st =
        parenthesized.interpret [.block [.print ⟨1⟩ 1, .expression ⟨4⟩ 2] 1] st ∧
      (plain.interpret [.block [.print ⟨3⟩ 1, .expression ⟨9⟩ 2] 1] st).result =
        .error (.missing 7 ⟨9⟩) ∧
      (plain.evaluateOn countedStack ⟨0⟩ left st).withoutGrowth =
        (parenthesized.evaluateOn countedStack ⟨0⟩ left st).withoutGrowth ∧
      (parenthesized.evaluateOn countedStack ⟨0⟩ left st).state.trace =
        #[.stackGrown 1048576, .stackGrown 1048576,
          .binaryRefused .sub .boolean .boolean 1] := by
  intro plain st left
  obtain ⟨-, ⟨hexpr, -, -, hprogram⟩, hstack⟩ :=
    runs_ignore_groupings parenthesized acyclic_parenthesized (fun _ => 8) st
  exact ⟨acyclic_parenthesized, by decide, (hexpr ⟨0⟩).2, by decide +kernel,
    hprogram [.block [.print ⟨1⟩ 1, .expression ⟨4⟩ 2] 1], by decide +kernel,
    (hstack countedStack countedStack left left).1 ⟨0⟩, by decide +kernel⟩

/-- **What tells groupings.** A literal in three groupings makes a stack with little room grow, and
the event of that is in the trace. The literal alone does not. -/
theorem growth_tells :
    let st := State.new .emptyBuffer
    let left : countedStack.Place := (68000 : Nat)
    let wrapped : Program :=
      ⟨.new, ⟨#[⟨.literal .nil, 1⟩, ⟨.grouping ⟨0⟩, 1⟩, ⟨.grouping ⟨1⟩, 1⟩, ⟨.grouping ⟨2⟩, 1⟩]⟩⟩
    let plain := wrapped.ungrouped fun _ => 1
    let stmts : List Stmt := [.expression ⟨3⟩ 1]
    let stmts' := Stmt.redirectAll wrapped.arena.core stmts
    wrapped.arena.Acyclic ∧ stmts' = [.expression ⟨0⟩ 1] ∧
      (wrapped.interpretOn countedStack stmts left st).state.trace =
        #[.started 1, .stackGrown 1048576] ∧
      (plain.interpretOn countedStack stmts' left st).state.trace = #[.started 1] ∧
      plain.interpretOn countedStack stmts' left st ≠
        wrapped.interpretOn countedStack stmts left st := by
  intro st left wrapped plain stmts stmts'
  have hwrapped : (wrapped.interpretOn countedStack stmts left st).state.trace =
      #[.started 1, .stackGrown 1048576] := by decide +kernel
  have hplain : (plain.interpretOn countedStack stmts' left st).state.trace = #[.started 1] := by
    decide +kernel
  refine ⟨Arena.acyclic_of_rank (fun i => i) (by decide), rfl, hwrapped, hplain, fun hsame => ?_⟩
  rw [hsame, hwrapped] at hplain
  exact absurd hplain (by decide)

end Program

end ScriptCore
