/-
Runs do not depend on how names are numbered.

A name has two uses. Scopes compare it with other names by its number, and literals and errors show
its text. A program whose names are replaced one to one by names that read the same in another table
therefore runs as before, in an environment that has the new names as its keys. What the tables hold
besides, and in which order, makes no difference, and neither does a name that a table does not
hold: it reads as the empty text and is still a variable of its own.

The names have to be told apart only where they occur. `Arena.Holds` and `Arena.Occurs` say where
that is, string literals included, since a renaming has to respect the texts of these as well.
-/
import Mathlib.Data.Set.Function
import ScriptCore.Proofs.Correspondence

set_option autoImplicit false

namespace ScriptCore

/-! ## Programs with other names -/

/-- The literal with another name for its text. -/
def Literal.rename (r : Name → Name) : Literal → Literal
  | string name => .string (r name)
  | number x => .number x
  | boolean b => .boolean b
  | nil => .nil

namespace Form

/-- The form with other names; operands stay where they are. -/
def rename (r : Name → Name) : Form → Form
  | literal l => .literal (l.rename r)
  | read name => .read (r name)
  | assign name value => .assign (r name) value
  | grouping inner => .grouping inner
  | unary op operand => .unary op operand
  | binary op left right => .binary op left right

/-- The name in the form itself, of a variable or of a text. -/
def held? : Form → Option Name
  | literal (.string name) | read name | assign name _ => some name
  | _ => none

theorem children_rename (r : Name → Name) (form : Form) :
    (form.rename r).children = form.children := by
  cases form <;> rfl

end Form

/-- The node with other names, on the same line. -/
def Node.rename (r : Name → Name) (node : Node) : Node := ⟨node.form.rename r, node.line⟩

namespace Arena

variable (r : Name → Name) (a : Arena)

/-- The arena with other names. -/
def rename : Arena := ⟨a.nodes.map (Node.rename r)⟩

theorem size_rename : (a.rename r).size = a.size := Array.size_map

theorem get?_rename (id : NodeId) : (a.rename r).get? id = (a.get? id).map (Node.rename r) :=
  Array.getElem?_map

theorem operand_rename : (a.rename r).Operand = a.Operand := by
  funext child parent
  apply propext
  unfold Operand
  rw [get?_rename]
  constructor
  · rintro ⟨_, hget, hchild⟩
    obtain ⟨node, hnode, rfl⟩ := Option.map_eq_some_iff.1 hget
    rw [Node.rename, Form.children_rename] at hchild
    exact ⟨node, hnode, hchild⟩
  · rintro ⟨node, hnode, hchild⟩
    refine ⟨node.rename r, by rw [hnode, Option.map_some], ?_⟩
    rw [Node.rename, Form.children_rename]
    exact hchild

variable {r a}

theorem Acyclic.rename (ha : a.Acyclic) (r : Name → Name) : (a.rename r).Acyclic := by
  intro id
  rw [operand_rename]
  exact ha id

/-- A node below the root has the name in it. -/
def Holds (a : Arena) (root : NodeId) (name : Name) : Prop :=
  ∃ id node, Relation.ReflTransGen a.Operand id root ∧ a.get? id = some node ∧
    node.form.held? = some name

/-- The statements declare the name, or an expression of theirs has it in a node. -/
def Occurs (a : Arena) (stmts : List Stmt) (name : Name) : Prop :=
  ∃ leaf ∈ Stmt.leavesAll stmts,
    name ∈ leaf.declared ∨ ∃ root, leaf.root? = some root ∧ a.Holds root name

theorem occurs_block (a : Arena) (body : List Stmt) (line : Nat) :
    a.Occurs [.block body line] = a.Occurs body := by
  unfold Occurs
  rw [Stmt.leavesAll, Stmt.leaves, Stmt.leavesAll, List.append_nil]

end Arena

/-! ## Environments and outcomes with other names -/

/-- The links are the same, and what one environment binds is what the other binds, under the images
of its names. -/
structure Env.Renamed (r : Name → Name) (env env' : Env) : Prop extends env.SameLinks env' where
  binding : ∀ i name' v, env'.valueAt? i name' = some v ↔
    ∃ name, r name = name' ∧ env.valueAt? i name = some v

/-- The results and the outputs are the same, and the environments are up to names. -/
structure Outcome.Renamed {α : Type} (r : Name → Name) (o o' : Outcome α) : Prop where
  result : o.result = o'.result
  output : o.state.output = o'.state.output
  env : o.state.env.Renamed r o'.state.env

/-- A renaming that numbers the given names apart and keeps their texts. -/
structure Renaming (names names' : NameTable) (N : Set Name) (r : Name → Name) : Prop where
  injOn : Set.InjOn r N
  text : ∀ name ∈ N, names'.text (r name) = names.text name

theorem SameResult.refl (leaks : Fault → Prop) (res : Except Fault Value) :
    SameResult (· = ·) leaks res res := by
  rcases res with fault | v
  · exact .error fault
  · exact .ok rfl

/-- Names stand for their images and values for themselves; no fault is excepted. -/
def Correspondence.renaming {N : Set Name} {r : Name → Name} (hinj : Set.InjOn r N) :
    Correspondence where
  rename := r
  known := (· ∈ N)
  values := (· = ·)
  outputs := (· = ·)
  leaks _ := False
  rename_inj hn hm h := hinj hn hm h
  nil := rfl
  print hv ho := by rw [hv, ho]
  report _ ho := by rw [ho]
  unary op v v' hv := hv ▸ .refl _ _
  binary op l l' r r' hl hr := hl ▸ hr ▸ .refl _ _

theorem rel_eq_iff {α : Type} {a b : Option α} : Option.Rel (· = ·) a b ↔ a = b := by
  constructor
  · rintro (rfl | -)
    · rfl
    · rfl
  · rintro rfl
    rcases a with _ | v
    · exact .none
    · exact .some rfl

theorem Env.renamed_new (N : Set Name) (r : Name → Name) :
    (∀ i name, Env.new.BindsAt i name → name ∈ N) ∧ Env.new.Renamed r Env.new := by
  have hnone : ∀ i name, Env.new.valueAt? i name = none := by
    intro i name
    rcases i with _ | i
    · exact Scope.value?_empty none name
    · rfl
  refine ⟨fun i name hbinds => ?_, ⟨rfl, rfl, fun _ => rfl⟩, fun i name' v => ?_⟩
  · rw [bindsAt_iff, hnone] at hbinds
    cases hbinds
  · simp only [hnone, reduceCtorEq, and_false, exists_false]

/-- Corresponding environments are renamed ones, as long as all names in them are known. -/
theorem Env.envs_renaming_iff {N : Set Name} {r : Name → Name} (hinj : Set.InjOn r N)
    {env env' : Env} : (Correspondence.renaming hinj).Envs env env' ↔
      (∀ i name, env.BindsAt i name → name ∈ N) ∧ env.Renamed r env' := by
  constructor
  · intro h
    refine ⟨h.bound, h.toSameLinks, fun i name' v => ⟨fun hvalue => ?_, ?_⟩⟩
    · -- What is bound on the other side is bound under an image.
      obtain ⟨name, hname, rfl⟩ := h.bound' i name' (bindsAt_of_valueAt? hvalue)
      exact ⟨name, rfl, (rel_eq_iff.1 (h.value i name hname)).trans hvalue⟩
    · rintro ⟨name, rfl, hvalue⟩
      have hname := h.bound i name (bindsAt_of_valueAt? hvalue)
      exact (rel_eq_iff.1 (h.value i name hname)).symm.trans hvalue
  · rintro ⟨hbound, h⟩
    refine ⟨h.toSameLinks, fun i name hname => rel_eq_iff.2 ?_, hbound, fun i name' hbinds => ?_⟩
    · -- The image is bound for this name or not at all.
      apply Option.ext
      intro v
      rw [h.binding]
      constructor
      · intro hvalue
        exact ⟨name, rfl, hvalue⟩
      · rintro ⟨other, himage, hvalue⟩
        have hother := hbound i other (bindsAt_of_valueAt? hvalue)
        rwa [← hinj hother hname himage]
    · rw [bindsAt_iff] at hbinds
      obtain ⟨v, hvalue⟩ := Option.isSome_iff_exists.1 hbinds
      obtain ⟨name, himage, hvalue⟩ := (h.binding i name' v).1 hvalue
      exact ⟨name, hbound i name (bindsAt_of_valueAt? hvalue), himage⟩

theorem Form.forms_rename {names names' : NameTable} {N : Set Name} {r : Name → Name}
    (h : Renaming names names' N r) {form : Form}
    (hheld : ∀ name, form.held? = some name → name ∈ N) :
    (Correspondence.renaming h.injOn).Forms names.text names'.text form (form.rename r) := by
  cases form with
  | literal l =>
    refine .literal ?_
    cases l with
    | string name => exact congrArg Value.string (h.text name (hheld name rfl)).symm
    | number | boolean | nil => rfl
  | grouping inner => exact .grouping inner
  | unary op operand => exact .unary op operand
  | binary op left right => exact .binary op left right
  | read name =>
    have hname := hheld name rfl
    exact .read hname (h.text name hname).symm
  | assign name value =>
    have hname := hheld name rfl
    exact .assign value hname (h.text name hname).symm

namespace Renaming

variable {names names' : NameTable} {N : Set Name} {r : Name → Name} {a : Arena}

/-- The acts of an expression that holds no other names correspond to those of its image. -/
theorem exprSchedule (h : Renaming names names' N r) (ha : a.Acyclic) {root : NodeId}
    (hheld : ∀ name, a.Holds root name → name ∈ N) :
    List.Forall₂ ((Correspondence.renaming h.injOn).Acts names.text names'.text)
      (Program.exprSchedule ⟨names, a⟩ root) (Program.exprSchedule ⟨names', a.rename r⟩ root) := by
  have hsize : (Program.mk names' (a.rename r)).arena.size = (Program.mk names a).arena.size :=
    Arena.size_rename r a
  refine Program.exprSchedule_corresponds ha (ha.rename r) hsize root fun id hid => ?_
  change Option.Rel _ (a.get? id) ((a.rename r).get? id)
  rw [Arena.get?_rename]
  rcases hget : a.get? id with _ | node
  · exact .none
  · refine .some ⟨Form.forms_rename h fun name hname => ?_, rfl⟩
    exact hheld name ⟨id, node, hid, hget, hname⟩

theorem leaf (h : Renaming names names' N r) (ha : a.Acyclic) {stmts : List Stmt}
    (hoccurs : ∀ name, a.Occurs stmts name → name ∈ N) {leaf : Stmt}
    (hleaf : leaf ∈ Stmt.leavesAll stmts) :
    (Correspondence.renaming h.injOn).Leaf ⟨names, a⟩ ⟨names', a.rename r⟩ leaf where
  root id hid := h.exprSchedule ha fun name hname =>
    hoccurs name ⟨leaf, hleaf, .inr ⟨id, hid, hname⟩⟩
  declared name hname := hoccurs name ⟨leaf, hleaf, .inl hname⟩

theorem schedule (h : Renaming names names' N r) (ha : a.Acyclic) {stmts : List Stmt}
    (hoccurs : ∀ name, a.Occurs stmts name → name ∈ N) :
    List.Forall₂ ((Correspondence.renaming h.injOn).Acts names.text names'.text)
      (Program.schedule ⟨names, a⟩ stmts)
      (Program.schedule ⟨names', a.rename r⟩ (Stmt.renameAll r stmts)) :=
  Program.schedule_corresponds stmts fun _ hleaf => h.leaf ha hoccurs hleaf

end Renaming

/-- Without exceptions, runs that correspond have the same results. -/
theorem Correspondence.Outcomes.renamed {N : Set Name} {r : Name → Name} {hinj : Set.InjOn r N}
    {α : Type} {o o' : Outcome α} (h : (Correspondence.renaming hinj).Outcomes (· = ·) o o') :
    o.Renamed r o' := by
  have hleak : ∀ o : Outcome α, ¬ (Correspondence.renaming hinj).Leaked o := by
    rintro o ⟨_, _, hfault, -⟩
    exact hfault
  have hstates := h.states (hleak o) (hleak o')
  exact ⟨h.result_eq (hleak o) (hleak o'), hstates.output,
    ((Env.envs_renaming_iff hinj).1 hstates.env).2⟩

namespace Program

/-- **Runs ignore numbering.** Take an arena without cycles and a renaming that is injective on a
set of names and keeps their texts, from one table to another. The set holds at least the names
bound in the environment. Whatever has no names outside the set, be it an expression, a statement, a
block or a program, runs in the same way under the new names, in the environment with the new names:
it gives the same value, or fails with the same error on the same line, or meets the same missing
expression. It writes the same text to both streams, and leaves the same environment up to the
names. -/
theorem runs_ignore_numbering (names names' : NameTable) (a : Arena) (ha : a.Acyclic) (N : Set Name)
    (r : Name → Name) (h : Renaming names names' N r) (st st' : State)
    (hbound : ∀ i name, st.env.BindsAt i name → name ∈ N) (henv : st.env.Renamed r st'.env)
    (houtput : st.output = st'.output) :
    (∀ id, (∀ name, a.Holds id name → name ∈ N) →
      (evaluate ⟨names, a⟩ id st).Renamed r (evaluate ⟨names', a.rename r⟩ id st')) ∧
    (∀ stmt, (∀ name, a.Occurs [stmt] name → name ∈ N) →
      (execute ⟨names, a⟩ stmt st).Renamed r
        (execute ⟨names', a.rename r⟩ (stmt.rename r) st')) ∧
    (∀ body, (∀ name, a.Occurs body name → name ∈ N) →
      (executeBlock ⟨names, a⟩ body st).Renamed r
        (executeBlock ⟨names', a.rename r⟩ (Stmt.renameAll r body) st')) ∧
    ∀ stmts, (∀ name, a.Occurs stmts name → name ∈ N) →
      (interpret ⟨names, a⟩ stmts st).Renamed r
        (interpret ⟨names', a.rename r⟩ (Stmt.renameAll r stmts) st') := by
  have hst : (Correspondence.renaming h.injOn).States st st' :=
    ⟨(Env.envs_renaming_iff h.injOn).2 ⟨hbound, henv⟩, houtput⟩
  have ha' := ha.rename r
  have hstmt : ∀ stmt, (∀ name, a.Occurs [stmt] name → name ∈ N) →
      (execute ⟨names, a⟩ stmt st).Renamed r
        (execute ⟨names', a.rename r⟩ (stmt.rename r) st') := by
    intro stmt hoccurs
    have hacts := stmtSchedule_corresponds stmt fun leaf (hleaf : leaf ∈ stmt.leaves) =>
      h.leaf ha hoccurs (List.mem_append_left _ hleaf)
    exact (corresponds_of_forget hacts hst (execute_eq_performAll ha stmt st)
      (execute_eq_performAll ha' (stmt.rename r) st')).renamed
  refine ⟨fun id hheld => ?_, hstmt, fun body hoccurs => ?_, fun stmts hoccurs => ?_⟩
  · exact (evaluate_corresponds ha ha' (h.exprSchedule ha hheld) hst).renamed
  · -- A block is a statement, on whatever line.
    rw [← Arena.occurs_block a body 0] at hoccurs
    have hblock := hstmt (.block body 0) hoccurs
    rw [Stmt.rename, execute_block, execute_block] at hblock
    exact hblock
  · exact (interpret_corresponds ha ha' (h.schedule ha hoccurs) hst).renamed

/-- A text, an assignment of it, and two variables to read. -/
def anonymous : Arena where
  nodes := #[⟨.literal (.string ⟨1⟩), 1⟩, ⟨.assign ⟨8⟩ ⟨0⟩, 2⟩, ⟨.read ⟨7⟩, 3⟩, ⟨.read ⟨1⟩, 4⟩]

/-- Two variables that no table has a text for, and then `x`, which is not declared. -/
def naming : List Stmt :=
  [.block [.declare ⟨7⟩ none 1, .print ⟨1⟩ 2, .print ⟨2⟩ 3] 1, .print ⟨3⟩ 4]

/-- A table that holds another text before `x`. -/
def crowded : NameTable where
  texts := #["", "y", "x"]
  indices := (((∅ : Std.TreeMap String Nat).insert "" 0).insert "y" 1).insert "x" 2

/-- `x` is found one place further on. Of the variables without a text, one gets the name of the
empty text. -/
def renumber (name : Name) : Name :=
  if name = ⟨1⟩ then ⟨2⟩ else if name = ⟨7⟩ then ⟨9⟩ else ⟨0⟩

/-- The names to be renumbered. -/
def renumbered : List Name := [⟨1⟩, ⟨7⟩, ⟨8⟩]

/-- A variable is bound from the start. -/
def preset (name : Name) : State :=
  { State.new .emptyBuffer with env := Env.new.define name (.boolean true) }

theorem renaming_renumber : Renaming tangled.names crowded {name | name ∈ renumbered} renumber := by
  have hinj : ∀ n ∈ renumbered, ∀ m ∈ renumbered, renumber n = renumber m → n = m := by decide
  have htext : ∀ name ∈ renumbered, crowded.text (renumber name) = tangled.names.text name := by
    decide
  exact ⟨fun n hn m hm => hinj n hn m hm, htext⟩

theorem mem_of_occurs_naming {name : Name} (h : anonymous.Occurs naming name) :
    name ∈ renumbered := by
  have hforms : ∀ node ∈ anonymous.nodes, ∀ name ∈ node.form.held?, name ∈ renumbered := by decide
  have hdeclared : ∀ leaf ∈ Stmt.leavesAll naming, ∀ name ∈ leaf.declared, name ∈ renumbered := by
    decide
  obtain ⟨leaf, hleaf, hmem | ⟨root, -, id, node, -, hget, hheld⟩⟩ := h
  · exact hdeclared leaf hleaf name hmem
  · exact hforms node (Array.mem_of_getElem? hget) name hheld

/-- Two variables read as the empty text in both tables, and are still kept apart. -/
theorem runs_ignore_numbering_anonymous :
    anonymous.Acyclic ∧ Renaming tangled.names crowded {name | name ∈ renumbered} renumber ∧
      (∀ i name, (preset ⟨8⟩).env.BindsAt i name → name ∈ renumbered) ∧
      (preset ⟨8⟩).env.Renamed renumber (preset ⟨0⟩).env ∧
      (∀ name, anonymous.Occurs naming name → name ∈ renumbered) ∧
      (interpret ⟨tangled.names, anonymous⟩ naming (preset ⟨8⟩)).result =
        .error (.error ⟨.undefinedVariable "x", "Undefined variable 'x'.", some 4⟩) ∧
      (interpret ⟨tangled.names, anonymous⟩ naming (preset ⟨8⟩)).state.output.captured.out =
        "x\nnil\n" ∧
      (interpret ⟨tangled.names, anonymous⟩ naming (preset ⟨8⟩)).Renamed renumber
        (interpret ⟨crowded, anonymous.rename renumber⟩ (Stmt.renameAll renumber naming)
          (preset ⟨0⟩)) := by
  have hacyclic : anonymous.Acyclic := Arena.acyclic_of_rank id (by decide)
  have hrenaming := renaming_renumber
  have hmem : (⟨8⟩ : Name) ∈ renumbered := by decide
  have henvs : (Correspondence.renaming hrenaming.injOn).Envs (preset ⟨8⟩).env (preset ⟨0⟩).env :=
    ((Env.envs_renaming_iff hrenaming.injOn).2 (Env.renamed_new _ _)).define hmem rfl
  obtain ⟨hbound, henv⟩ := (Env.envs_renaming_iff hrenaming.injOn).1 henvs
  have hoccurs : ∀ name, anonymous.Occurs naming name → name ∈ renumbered :=
    fun _ hname => mem_of_occurs_naming hname
  obtain ⟨-, -, -, hrun⟩ := runs_ignore_numbering tangled.names crowded anonymous hacyclic
    {name | name ∈ renumbered} renumber hrenaming (preset ⟨8⟩) (preset ⟨0⟩) hbound henv rfl
  exact ⟨hacyclic, hrenaming, hbound, henv, hoccurs, by decide +kernel, by decide +kernel,
    hrun naming hoccurs⟩

end Program

end ScriptCore
