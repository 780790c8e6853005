/-
Control flow depends on kinds.

The language has no branches, but a run may still end early, and whether it does depends on values.
It depends on little of them: an operator accepts or refuses its operands by their kinds, and the
kind of its result is settled by theirs. Truth, order and equality never decide whether an operator
succeeds, and neither does a NaN. The one exception is a zero on the right of a division, which is
looked for before the kinds are.

So two programs that differ inside literals, in environments that differ inside values, run alike
until one of them divides by zero. `Correspondence.kinds` says this of the operators, and the run is
the correspondence of runs.
-/
import ScriptCore.Proofs.Correspondence

set_option autoImplicit false

namespace ScriptCore

/-! ## Operators -/

/-- The values are of one kind. -/
def Value.Alike (v v' : Value) : Prop := v.kind = v'.kind

namespace Value

/-! Stated for variables, so that no operation on numbers is ever unfolded to compare two kinds. -/

theorem alike_number (x y : Number) : (number x).Alike (number y) := rfl

theorem alike_string (s t : String) : (string s).Alike (string t) := rfl

theorem alike_boolean (a b : Bool) : (boolean a).Alike (boolean b) := rfl

end Value

/-- The results are values of one kind or one fault, unless there is a division by zero. -/
abbrev AlikeResults : Except Fault Value → Except Fault Value → Prop :=
  SameResult Value.Alike (· = .divisionByZero)

theorem UnaryOp.apply_alike (op : UnaryOp) {v v' : Value} (h : v.Alike v') :
    AlikeResults (op.apply v) (op.apply v') := by
  cases op with
  | not => exact .ok (Value.alike_boolean _ _)
  | neg =>
    rcases v with x | s | b | _ <;> rcases v' with x' | s' | b' | _ <;> cases h
    · exact .ok (Value.alike_number _ _)
    · exact .error _
    · exact .error _
    · exact .error _

namespace BinaryOp

variable {l l' r r' : Value}

/-- An operator on numbers whose results are of one kind. -/
theorem onNumbers_alike {f : Number → Number → Value} (hf : ∀ x y x' y', (f x y).Alike (f x' y'))
    (hl : l.Alike l') (hr : r.Alike r') : AlikeResults (onNumbers f l r) (onNumbers f l' r') := by
  by_cases hboth : l.Both .number r
  · obtain ⟨hnumber, hnumber'⟩ := hboth
    have hl' : l'.kind = .number := hl.symm.trans hnumber
    have hr' : r'.kind = .number := hr.symm.trans hnumber'
    rcases l with x | _ | _ | _ <;> cases hnumber
    rcases r with y | _ | _ | _ <;> cases hnumber'
    rcases l' with x' | _ | _ | _ <;> cases hl'
    rcases r' with y' | _ | _ | _ <;> cases hr'
    exact .ok (hf x y x' y')
  · have hboth' : ¬ l'.Both .number r' := by
      rintro ⟨hnumber, hnumber'⟩
      exact hboth ⟨hl.trans hnumber, hr.trans hnumber'⟩
    rw [onNumbers_other f hboth, onNumbers_other f hboth']
    exact .error _

theorem plus_alike (hl : l.Alike l') (hr : r.Alike r') :
    AlikeResults (plus l r) (plus l' r') := by
  rcases l with x | s | b | _ <;> rcases l' with x' | s' | b' | _ <;> cases hl <;>
    rcases r with y | t | c | _ <;> rcases r' with y' | t' | c' | _ <;> cases hr
  case number.number.refl.number.number.refl => exact .ok (Value.alike_number _ _)
  case string.string.refl.string.string.refl => exact .ok (Value.alike_string _ _)
  all_goals exact .error _

/-- A zero on the right of one division says nothing about the other. -/
theorem quotient_alike (hl : l.Alike l') (hr : r.Alike r') :
    AlikeResults (quotient l r) (quotient l' r') := by
  rw [quotient, quotient]
  by_cases hzero : isZeroNumber r = true
  · rw [if_pos hzero]
    exact .leaksFirst _ rfl
  · by_cases hzero' : isZeroNumber r' = true
    · rw [if_pos hzero']
      exact .leaksSecond _ rfl
    · rw [if_neg hzero, if_neg hzero']
      exact onNumbers_alike (fun _ _ _ _ => Value.alike_number _ _) hl hr

theorem apply_alike (op : BinaryOp) (hl : l.Alike l') (hr : r.Alike r') :
    AlikeResults (op.apply l r) (op.apply l' r') := by
  cases op with
  | eq | notEq => exact .ok (Value.alike_boolean _ _)
  | add => exact plus_alike hl hr
  | div => exact quotient_alike hl hr
  | sub | mul => exact onNumbers_alike (fun _ _ _ _ => Value.alike_number _ _) hl hr
  | lt | ltEq | gt | gtEq => exact onNumbers_alike (fun _ _ _ _ => Value.alike_boolean _ _) hl hr

end BinaryOp

/-- Names stand for themselves and values for all values of their kind. -/
def Correspondence.kinds : Correspondence where
  rename := id
  known _ := True
  values := Value.Alike
  outputs _ _ := True
  leaks := (· = .divisionByZero)
  rename_inj _ _ h := h
  nil := rfl
  print _ _ := trivial
  report _ _ := trivial
  unary op _ _ hv := op.apply_alike hv
  binary op _ _ _ _ hl hr := op.apply_alike hl hr

/-! ## Programs and environments of the same kinds -/

/-- The kind of the value that a literal has. -/
def Literal.kind : Literal → Kind
  | number _ => .number
  | string _ => .string
  | boolean _ => .boolean
  | nil => .nil

theorem Literal.kind_valueIn (text : Name → String) (l : Literal) :
    (l.valueIn text).kind = l.kind := by
  rcases l with _ | _ | _ | _ <;> rfl

/-- The forms are the same, or two literals of one kind. -/
inductive Form.SameKind : Form → Form → Prop where
  | refl (form : Form) : SameKind form form
  | literal {l l' : Literal} : l.kind = l'.kind → SameKind (.literal l) (.literal l')

/-- The arenas are of one size and differ inside literals alone. -/
structure Arena.SameKinds (a a' : Arena) : Prop where
  size : a'.size = a.size
  node : ∀ id node node', a.get? id = some node → a'.get? id = some node' →
    node.form.SameKind node'.form ∧ node.line = node'.line

/-- The scopes, their links and the names bound in them are the same, and so are the kinds of the
values. -/
structure Env.SameKinds (env env' : Env) : Prop extends env.SameLinks env' where
  kind : ∀ i name, (env'.valueAt? i name).map Value.kind = (env.valueAt? i name).map Value.kind

theorem Env.SameKinds.refl (env : Env) : env.SameKinds env :=
  ⟨⟨rfl, rfl, fun _ => rfl⟩, fun _ _ => rfl⟩

theorem rel_alike_iff {a b : Option Value} :
    Option.Rel Value.Alike a b ↔ b.map Value.kind = a.map Value.kind := by
  constructor
  · rintro (halike | -)
    · exact congrArg some halike.symm
    · rfl
  · intro h
    rcases a with _ | v <;> rcases b with _ | v'
    · exact .none
    · cases h
    · cases h
    · exact .some (Option.some.inj h).symm

theorem Env.envs_kinds_iff {env env' : Env} :
    Correspondence.kinds.Envs env env' ↔ env.SameKinds env' := by
  constructor
  · intro h
    exact ⟨h.toSameLinks, fun i name => rel_alike_iff.1 (h.value i name trivial)⟩
  · intro h
    exact ⟨h.toSameLinks, fun i name _ => rel_alike_iff.2 (h.kind i name),
      fun _ _ _ => trivial, fun _ name _ => ⟨name, trivial, rfl⟩⟩

theorem Form.SameKind.forms {form form' : Form} (h : form.SameKind form') (text : Name → String) :
    Correspondence.kinds.Forms text text form form' := by
  rcases h with - | hkind
  · cases form with
    | literal => exact .literal rfl
    | grouping inner => exact .grouping inner
    | unary op operand => exact .unary op operand
    | binary op left right => exact .binary op left right
    | read name => exact .read trivial rfl
    | assign name value => exact .assign value trivial rfl
  · refine .literal ?_
    change (Literal.valueIn text _).kind = (Literal.valueIn text _).kind
    rw [Literal.kind_valueIn, Literal.kind_valueIn, hkind]

theorem Arena.SameKinds.nodes {a a' : Arena} (h : a.SameKinds a') (text : Name → String)
    (id : NodeId) :
    Option.Rel (Correspondence.kinds.Nodes text text) (a.get? id) (a'.get? id) := by
  rcases hget : a.get? id with _ | node
  · have hnone : a'.get? id = none := by
      rw [get?_eq_none_iff, h.size, ← get?_eq_none_iff]
      exact hget
    rw [hnone]
    exact .none
  · have hsome : a'.get? id ≠ none := by
      rw [Ne, get?_eq_none_iff, h.size, ← get?_eq_none_iff, hget]
      exact Option.some_ne_none node
    obtain ⟨node', hget'⟩ := Option.ne_none_iff_exists'.1 hsome
    obtain ⟨hform, hline⟩ := h.node id node node' hget hget'
    rw [hget']
    exact .some ⟨hform.forms text, hline⟩

namespace Stmt

mutual

theorem rename_id : (stmt : Stmt) → stmt.rename id = stmt
  | .expression _ _ => by rw [rename]
  | .print _ _ => by rw [rename]
  | .declare _ _ _ => by rw [rename, id]
  | .block body _ => by rw [rename, renameAll_id body]

theorem renameAll_id : (stmts : List Stmt) → renameAll id stmts = stmts
  | [] => by rw [renameAll]
  | stmt :: rest => by rw [renameAll, rename_id stmt, renameAll_id rest]

end

end Stmt

/-! ## How many lines are printed -/

/-- The report that ends a program, if an error does. -/
def Outcome.reports (o : Outcome Unit) : List Line :=
  match o.result with
  | .error (.error e) => [.reported e.text]
  | _ => []

namespace Program

variable {p p' : Program}

/-- The program prints these texts: one for each print that is executed, each on a line, before the
report if there is one. -/
structure Prints (p : Program) (stmts : List Stmt) (st : State) (texts : List String) : Prop where
  length : texts.length = (p.executed (p.schedule stmts) st).count .print
  output : (p.interpret stmts st).state.output =
    st.output.writeAll (texts.map .printed ++ (p.interpret stmts st).reports)

/-- Acts other than printing leave the output. -/
theorem output_perform {act : Act} (hact : act ≠ .print) (w : Pending) (st : State) :
    (p.perform act w st).state.output = st.output := by
  cases act with
  | print => exact absurd rfl hact
  | literal | missing | discard | declare | enter | leave => rfl
  | unary op line =>
    rw [perform, State.applyUnary]
    rcases op.apply w.top with fault | v <;> rfl
  | binary op line =>
    rw [perform, State.applyBinary]
    rcases op.apply w.drop.top w.top with fault | v <;> rfl
  | read name line =>
    rw [perform, readName]
    rcases st.env.get name line with unbound | v <;> rfl
  | assign name line =>
    rw [perform, assignName]
    rcases st.env.assign name w.top line with unbound | env <;> rfl

/-- A schedule prints one line for each of its prints that is performed. -/
theorem output_performAll (acts : List Act) (w : Pending) (st : State) :
    ∃ texts : List String, texts.length = (acts.take (p.performed acts w st)).count .print ∧
      (p.performAll acts w st).state.output = st.output.writeAll (texts.map .printed) := by
  induction acts generalizing w st with
  | nil => exact ⟨[], rfl, rfl⟩
  | cons act rest ih =>
    rw [performAll, performed]
    by_cases hact : act = .print
    · subst hact
      obtain ⟨texts, hlength, houtput⟩ := ih w.drop (st.printLine w.top.text)
      refine ⟨w.top.text :: texts, ?_, houtput⟩
      rw [List.length_cons, hlength]
      exact List.count_cons_self.symm
    · have hkept := output_perform (p := p) hact w st
      generalize p.perform act w st = o at hkept ⊢
      obtain ⟨halt | w', next⟩ := o
      · refine ⟨[], rfl, ?_⟩
        exact (State.output_closeScopes _ next).trans hkept
      · obtain ⟨texts, hlength, houtput⟩ := ih w' next
        refine ⟨texts, ?_, ?_⟩
        · rw [hlength]
          exact (List.count_cons_of_ne hact).symm
        · exact houtput.trans (congrArg (Output.writeAll · (texts.map .printed)) hkept)

theorem exists_prints (hp : p.arena.Acyclic) (stmts : List Stmt) (st : State) :
    ∃ texts, p.Prints stmts st texts := by
  obtain ⟨texts, hlength, houtput⟩ := p.output_performAll (p.schedule stmts) .empty
    (st.record (.started stmts.length))
  have hrun := executeAll_eq_performAll hp stmts (st.record (.started stmts.length))
  rw [← Outcome.state_eq_of_forget hrun] at houtput
  refine ⟨texts, ?_, ?_⟩
  · rw [hlength, executed, performed_congr (st.env_record _)]
  · -- A report is written behind all that the statements have printed.
    rw [Output.writeAll_append, interpret, Outcome.reports]
    generalize p.executeAll stmts _ = o at houtput ⊢
    obtain ⟨(e | ⟨size, id⟩ | _) | _, last⟩ := o
    · exact congrArg (Output.reportLine · e.text) houtput
    · exact houtput
    · exact houtput
    · exact houtput

end Program

theorem Correspondence.Acts.count_print {C : Correspondence} {text text' : Name → String}
    {acts acts' : List Act} (h : List.Forall₂ (C.Acts text text') acts acts') :
    acts.count .print = acts'.count .print := by
  induction h with
  | nil => rfl
  | @cons act act' acts acts' hact _ ih =>
    have hsame : (act == .print) = (act' == .print) := by
      rcases hact with - | - | - | - | - <;> rfl
    rw [List.count_cons, List.count_cons, ih, hsame]

/-! ## From the outside -/

/-- The run was ended by a division by zero. -/
def Outcome.DividesByZero (o : Outcome Unit) : Prop :=
  ∃ e, o.result = .error (.error e) ∧ e.fault = .divisionByZero

namespace Program

theorem leaf_kinds (names : NameTable) {a a' : Arena} (ha : a.Acyclic) (ha' : a'.Acyclic)
    (harena : a.SameKinds a') (leaf : Stmt) :
    Correspondence.kinds.Leaf ⟨names, a⟩ ⟨names, a'⟩ leaf where
  root id _ := exprSchedule_corresponds ha ha' harena.size id fun d _ => harena.nodes names.text d
  declared _ _ := trivial

/-- **Runs follow kinds.** Take two arenas without cycles that differ inside literals only, where
kinds stay, and two environments that differ in values of the same kinds. Unless one of the runs
divides by zero, a program ends in the same way in both: it succeeds, or it fails with the same
error on the same line, or it meets the same missing expression. It prints equally many lines, and
leaves environments that again differ in values of the same kinds. -/
theorem interpret_follows_kinds (names : NameTable) (a a' : Arena) (ha : a.Acyclic)
    (ha' : a'.Acyclic) (harena : a.SameKinds a') (st st' : State)
    (henv : st.env.SameKinds st'.env) (stmts : List Stmt)
    (hzero : ¬ (interpret ⟨names, a⟩ stmts st).DividesByZero)
    (hzero' : ¬ (interpret ⟨names, a'⟩ stmts st').DividesByZero) :
    (interpret ⟨names, a⟩ stmts st).result = (interpret ⟨names, a'⟩ stmts st').result ∧
      (∃ texts texts', Prints ⟨names, a⟩ stmts st texts ∧ Prints ⟨names, a'⟩ stmts st' texts' ∧
        texts.length = texts'.length) ∧
      (interpret ⟨names, a⟩ stmts st).state.env.SameKinds
        (interpret ⟨names, a'⟩ stmts st').state.env := by
  have hst : Correspondence.kinds.States st st' := ⟨Env.envs_kinds_iff.2 henv, trivial⟩
  have hacts := schedule_corresponds (C := .kinds) stmts
    fun leaf _ => leaf_kinds names ha ha' harena leaf
  rw [show Stmt.renameAll Correspondence.kinds.rename stmts = stmts from
    Stmt.renameAll_id stmts] at hacts
  have hdivides : ∀ {o : Outcome Unit}, Correspondence.kinds.Leaked o → o.DividesByZero := by
    rintro o ⟨fault, line, rfl, hresult⟩
    exact ⟨_, hresult, rfl⟩
  have hrun := interpret_corresponds ha ha' hacts hst
  have hleak := fun h => hzero (hdivides h)
  have hleak' := fun h => hzero' (hdivides h)
  refine ⟨hrun.result_eq hleak hleak', ?_, Env.envs_kinds_iff.1 (hrun.states hleak hleak').env⟩
  obtain ⟨texts, hprints⟩ := exists_prints (p := ⟨names, a⟩) ha stmts st
  obtain ⟨texts', hprints'⟩ := exists_prints (p := ⟨names, a'⟩) ha' stmts st'
  refine ⟨texts, texts', hprints, hprints', ?_⟩
  rw [hprints.length, hprints'.length]
  exact Correspondence.Acts.count_print (executed_corresponds ha ha' hacts hst hleak hleak')

/-- A number compared with itself, a string divided by that number, and a variable. -/
def compared (x : Number) : Arena where
  nodes := #[⟨.literal (.number x), 1⟩, ⟨.literal (.string ⟨0⟩), 2⟩, ⟨.binary .ltEq ⟨0⟩ ⟨0⟩, 3⟩,
    ⟨.binary .div ⟨1⟩ ⟨0⟩, 4⟩, ⟨.read ⟨1⟩, 5⟩]

/-- The comparison and the variable are printed, and a block comes to the division. -/
def comparing : List Stmt :=
  [.print ⟨2⟩ 1, .print ⟨4⟩ 2, .block [.declare ⟨1⟩ (some ⟨0⟩) 3, .print ⟨3⟩ 4] 3, .print ⟨2⟩ 5]

/-- The variable has a truth value. -/
def holding (b : Bool) : State :=
  { State.new .emptyBuffer with env := Env.new.define ⟨1⟩ (.boolean b) }

theorem sameKinds_compared (x y : Number) : (compared x).SameKinds (compared y) where
  size := rfl
  node := by
    rintro ⟨i⟩ node node' hget hget'
    rcases i with _ | _ | _ | _ | _ | i <;> cases hget <;> cases hget'
    · exact ⟨.literal rfl, rfl⟩
    · exact ⟨.refl _, rfl⟩
    · exact ⟨.refl _, rfl⟩
    · exact ⟨.refl _, rfl⟩
    · exact ⟨.refl _, rfl⟩

/-- The number is one in the first run and a NaN in the second, so what is printed differs; the
division is refused in both. -/
theorem interpret_follows_kinds_nan :
    let one := compared ⟨0x3ff0000000000000⟩
    let nan := compared ⟨0x7ff8000000000000⟩
    let first := interpret ⟨.new, one⟩ comparing (holding true)
    let second := interpret ⟨.new, nan⟩ comparing (holding false)
    one.Acyclic ∧ nan.Acyclic ∧ one.SameKinds nan ∧
      (holding true).env.SameKinds (holding false).env ∧
      ¬ first.DividesByZero ∧ ¬ second.DividesByZero ∧
      first.result =
        .error (.error ⟨.typeMismatch .numbers, "Operands must be numbers", some 4⟩) ∧
      first.result = second.result ∧
      (∃ texts texts', Prints ⟨.new, one⟩ comparing (holding true) texts ∧
        Prints ⟨.new, nan⟩ comparing (holding false) texts' ∧ texts.length = texts'.length) ∧
      first.state.env.SameKinds second.state.env := by
  intro one nan first second
  have hone : one.Acyclic := Arena.acyclic_of_rank id (by decide)
  have hnan : nan.Acyclic := Arena.acyclic_of_rank id (by decide)
  have harena : one.SameKinds nan := sameKinds_compared _ _
  have henv : (holding true).env.SameKinds (holding false).env :=
    Env.envs_kinds_iff.1 ((Env.envs_kinds_iff.2 (.refl _)).define trivial rfl)
  have hfirst : first.result =
      .error (.error ⟨.typeMismatch .numbers, "Operands must be numbers", some 4⟩) := by
    decide +kernel
  have hsecond : second.result =
      .error (.error ⟨.typeMismatch .numbers, "Operands must be numbers", some 4⟩) := by
    decide +kernel
  have hzero : ¬ first.DividesByZero := by
    rintro ⟨e, he, hfault⟩
    cases hfirst.symm.trans he
    cases hfault
  have hzero' : ¬ second.DividesByZero := by
    rintro ⟨e, he, hfault⟩
    cases hsecond.symm.trans he
    cases hfault
  exact ⟨hone, hnan, harena, henv, hzero, hzero', hfirst,
    interpret_follows_kinds .new one nan hone hnan harena (holding true) (holding false) henv
      comparing hzero hzero'⟩

end Program

end ScriptCore
