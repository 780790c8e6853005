/-
What the trace of a program says.

Blocks show in the trace as they are entered and left, with the number of scopes that are live then,
and nothing else shows but an operator that refuses its operands and the error that ends the
program. Seen as moves, a program never leaves a block that it has not entered (`Move.Nested`), so
what the moves show is nested as the blocks are (`Move.bracketed_events`). A leaf shows nothing
unless it fails, and then at most one refusal, which is that of the operator that raised the error
(`evaluate_shows`). What is left to be shown are the blocks that are open, and they are closed, from
the inside out.

What a reader of the trace has before them are words, and `Event.Reads` puts these down once more,
apart from the functions that make them: an operator is told by its symbol, a type by its name and
an error by its line and its kind.
-/
import ScriptCore.Proofs.Attribution
import ScriptCore.Proofs.Frame

set_option autoImplicit false

namespace ScriptCore

/-! ## What is read of events -/

/-- What a kind of value is called. -/
inductive Kind.Called : Kind → String → Prop where
  | number : Called .number "number"
  | string : Called .string "string"
  | boolean : Called .boolean "boolean"
  | nil : Called .nil "nil"

theorem Kind.called_name (kind : Kind) : kind.Called kind.name := by
  cases kind with
  | number => exact .number
  | string => exact .string
  | boolean => exact .boolean
  | nil => exact .nil

/-- How a fault is written down. -/
inductive Fault.Written : Fault → String → Prop where
  | number : Written (.typeMismatch .number) "TypeMismatch \x7b expected: Number \x7d"
  | numbers : Written (.typeMismatch .numbers) "TypeMismatch \x7b expected: Numbers \x7d"
  | numbersOrStrings :
      Written (.typeMismatch .numbersOrStrings) "TypeMismatch \x7b expected: NumbersOrStrings \x7d"
  | divisionByZero : Written .divisionByZero "DivisionByZero"
  | undefinedVariable (name : String) : Written (.undefinedVariable name)
      ("UndefinedVariable \x7b name: " ++ Text.quoted name ++ " \x7d")

theorem Fault.written_describe (fault : Fault) : fault.Written fault.describe := by
  cases fault with
  | typeMismatch expected =>
    cases expected with
    | number => exact .number
    | numbers => exact .numbers
    | numbersOrStrings => exact .numbersOrStrings
  | divisionByZero => exact .divisionByZero
  | undefinedVariable name => exact .undefinedVariable name

namespace Event

/-- What can be read of an event: its level, its message and its fields. -/
def shown (event : Event) : String × String × List (String × String) :=
  (event.level, event.message, event.fields)

/-- The event is to be read so. The symbol of an operator is one that no other operator has. -/
inductive Reads : Event → String × String × List (String × String) → Prop where
  | started (count : Nat) :
      Reads (.started count) ("DEBUG", "span interpret", [("count", toString count)])
  | blockEntered (depth : Nat) :
      Reads (.blockEntered depth) ("TRACE", "enter block", [("depth", toString depth)])
  | blockLeft (depth : Nat) :
      Reads (.blockLeft depth) ("TRACE", "leave block", [("depth", toString depth)])
  | unaryRefused {op : UnaryOp} {operand : Kind} {symbol type : String} (line : Nat) :
      UnaryOp.ofSymbol? symbol = some op → operand.Called type →
      Reads (.unaryRefused op operand line) ("DEBUG", "unary operator rejected operand",
        [("op", symbol), ("operand", type), ("line", toString line)])
  | binaryRefused {op : BinaryOp} {left right : Kind} {symbol leftType rightType : String}
      (line : Nat) :
      BinaryOp.ofSymbol? symbol = some op → left.Called leftType → right.Called rightType →
      Reads (.binaryRefused op left right line) ("DEBUG", "binary operator rejected operands",
        [("op", symbol), ("left", leftType), ("right", rightType), ("line", toString line)])
  | failed {e : EvalError} {line : Nat} {kind : String} : e.line = some line →
      e.fault.Written kind → Reads (.failed e) ("DEBUG", "runtime error",
        [("line", "Some(" ++ toString line ++ ")"), ("kind", kind)])

theorem reads_failed {e : EvalError} {line : Nat} (h : e.line = some line) :
    (failed e).Reads (failed e).shown := by
  have hshown : (failed e).shown = ("DEBUG", "runtime error",
      [("line", "Some(" ++ toString line ++ ")"), ("kind", e.fault.describe)]) := by
    simp only [shown, level, message, fields, lineField, h]
  rw [hshown]
  exact .failed h e.fault.written_describe

end Event

/-! ## Events that are nested -/

/-- An operator raises this fault when it refuses its operands. -/
def Fault.ofOperator : Fault → Bool
  | .typeMismatch _ | .divisionByZero => true
  | .undefinedVariable _ => false

namespace Event

/-- An operator refused its operands. -/
def isRefusal : Event → Bool
  | unaryRefused .. | binaryRefused .. => true
  | _ => false

/-- A block was left. -/
def isLeaving : Event → Bool
  | blockLeft _ => true
  | _ => false

/-- With a number of blocks open, the events close them all, and whatever is opened on the way. Each
gives the depth outside and the number of blocks that are open by then. After a refusal blocks are
left and nothing else. -/
inductive Bracketed (depth : Nat) : Nat → List Event → Prop where
  | closed : Bracketed depth 0 []
  | entered {n : Nat} {rest : List Event} : Bracketed depth (n + 1) rest →
      Bracketed depth n (.blockEntered (depth + (n + 1)) :: rest)
  | left {n : Nat} {rest : List Event} : Bracketed depth n rest →
      Bracketed depth (n + 1) (.blockLeft (depth + n) :: rest)
  | refused {n : Nat} {event : Event} {rest : List Event} : event.isRefusal = true →
      (∀ later ∈ rest, later.isLeaving = true) → Bracketed depth n rest →
      Bracketed depth n (event :: rest)

/-- Nested events read as they should. -/
theorem Bracketed.reads {depth n : Nat} {events : List Event} (h : Bracketed depth n events) :
    ∀ event ∈ events, event.Reads event.shown := by
  induction h with
  | closed => exact nofun
  | entered _ ih => exact List.forall_mem_cons.2 ⟨.blockEntered _, ih⟩
  | left _ ih => exact List.forall_mem_cons.2 ⟨.blockLeft _, ih⟩
  | @refused n event rest hrefusal _ _ ih =>
    refine List.forall_mem_cons.2 ⟨?_, ih⟩
    cases event with
    | unaryRefused op operand line =>
      exact .unaryRefused line (UnaryOp.ofSymbol?_symbol op) operand.called_name
    | binaryRefused op left right line =>
      exact .binaryRefused line (BinaryOp.ofSymbol?_symbol op) left.called_name right.called_name
    | started | blockEntered | blockLeft | failed | stackGrown => cases hrefusal

/-- Open blocks are left, the inner ones first. -/
def closing (depth : Nat) : Nat → List Event
  | 0 => []
  | n + 1 => .blockLeft (depth + n) :: closing depth n

theorem bracketed_closing (depth n : Nat) : Bracketed depth n (closing depth n) := by
  induction n with
  | zero => exact .closed
  | succ n ih => exact .left ih

theorem isLeaving_of_mem_closing {depth n : Nat} {event : Event} (h : event ∈ closing depth n) :
    event.isLeaving = true := by
  induction n with
  | zero => cases h
  | succ n ih =>
    rcases List.mem_cons.1 h with rfl | hrest
    · rfl
    · exact ih hrest

theorem not_isRefusal_of_mem_closing {depth n : Nat} {event : Event}
    (h : event ∈ closing depth n) : event.isRefusal = false := by
  have hleaving := isLeaving_of_mem_closing h
  cases event with
  | blockLeft => rfl
  | started | blockEntered | unaryRefused | binaryRefused | failed | stackGrown => cases hleaving

theorem filter_closing (depth n : Nat) :
    (closing depth n).filter (!·.isRefusal) = closing depth n := by
  refine List.filter_eq_self.2 ?_
  intro event hmem
  rw [not_isRefusal_of_mem_closing hmem]
  rfl

end Event

/-! ## What moves show -/

namespace Move

/-- What moves show, with a number of blocks open above the depth outside. -/
def events (depth : Nat) : List Move → Nat → List Event
  | [], _ => []
  | .enter :: rest, n => .blockEntered (depth + (n + 1)) :: events depth rest (n + 1)
  | .leave :: rest, n => .blockLeft (depth + (n - 1)) :: events depth rest (n - 1)
  | .leaf _ :: rest, n => events depth rest n

/-- With a number of blocks open, moves leave a block only where one is open. -/
def Nested : List Move → Nat → Prop
  | [], _ => True
  | .enter :: rest, n => Nested rest (n + 1)
  | .leave :: rest, n => 0 < n ∧ Nested rest (n - 1)
  | .leaf _ :: rest, n => Nested rest n

theorem level_append (first second : List Move) (n : Nat) :
    level (first ++ second) n = level second (level first n) := by
  induction first generalizing n with
  | nil => rfl
  | cons move rest ih =>
    rcases move with _ | _ | stmt
    · exact ih (n + 1)
    · exact ih (n - 1)
    · exact ih n

theorem nested_append {first second : List Move} {n : Nat} :
    Nested (first ++ second) n ↔ Nested first n ∧ Nested second (level first n) := by
  induction first generalizing n with
  | nil => exact (iff_of_eq (true_and _)).symm
  | cons move rest ih =>
    rcases move with _ | _ | stmt
    · exact ih
    · exact (and_congr_right fun _ => ih).trans and_assoc.symm
    · exact ih

/-- What nested moves show is nested, if what comes behind closes the blocks they leave open. -/
theorem bracketed_events {depth : Nat} {done : List Move} {n : Nat} (h : Nested done n)
    {tail : List Event} (htail : Event.Bracketed depth (level done n) tail) :
    Event.Bracketed depth n (events depth done n ++ tail) := by
  induction done generalizing n with
  | nil => exact htail
  | cons move rest ih =>
    rcases move with _ | _ | stmt
    · exact .entered (ih h htail)
    · -- A block is open, so there is a number before the one that are.
      obtain ⟨hopen, hrest⟩ := h
      obtain ⟨n, rfl⟩ := Nat.exists_eq_add_one_of_ne_zero (Nat.ne_of_gt hopen)
      exact .left (ih hrest htail)
    · exact ih h htail

theorem not_isRefusal_of_mem_events {depth n : Nat} {done : List Move} {event : Event}
    (h : event ∈ events depth done n) : event.isRefusal = false := by
  induction done generalizing n with
  | nil => cases h
  | cons move rest ih =>
    rcases move with _ | _ | stmt
    · rcases List.mem_cons.1 h with rfl | hrest
      · rfl
      · exact ih hrest
    · rcases List.mem_cons.1 h with rfl | hrest
      · rfl
      · exact ih hrest
    · exact ih h

theorem filter_events (depth : Nat) (done : List Move) (n : Nat) :
    (events depth done n).filter (!·.isRefusal) = events depth done n := by
  refine List.filter_eq_self.2 ?_
  intro event hmem
  rw [not_isRefusal_of_mem_events hmem]
  rfl

end Move

namespace Stmt

mutual

theorem nested_moves : (stmt : Stmt) → (n : Nat) →
    Move.Nested stmt.moves n ∧ Move.level stmt.moves n = n
  | .block body _, n => by
    -- The body leaves the block open that it stands in, and it is left behind the body.
    obtain ⟨hbody, hlevel⟩ := nested_movesAll body (n + 1)
    rw [moves]
    refine ⟨Move.nested_append.2 ⟨hbody, ?_⟩, ?_⟩
    · rw [hlevel]
      exact ⟨Nat.succ_pos n, trivial⟩
    · rw [Move.level, Move.level_append, hlevel]
      rfl
  | .expression _ _, n | .print _ _, n | .declare _ _ _, n => by
    rw [moves]
    exact ⟨trivial, rfl⟩

/-- Statements leave the blocks they enter, and no others. -/
theorem nested_movesAll : (stmts : List Stmt) → (n : Nat) →
    Move.Nested (movesAll stmts) n ∧ Move.level (movesAll stmts) n = n
  | [], n => by
    rw [movesAll]
    exact ⟨trivial, rfl⟩
  | stmt :: rest, n => by
    obtain ⟨hstmt, hlevel⟩ := nested_moves stmt n
    obtain ⟨hrest, hlast⟩ := nested_movesAll rest n
    rw [movesAll, Move.nested_append, Move.level_append, hlevel]
    exact ⟨⟨hstmt, hrest⟩, hlast⟩

end

end Stmt

/-! ## What expressions show -/

/-- The node is an operator that refuses operands of these values, and the event says so. -/
inductive Node.Refuses : Node → List Value → Event → Prop where
  | unary (op : UnaryOp) (operand : NodeId) (line : Nat) (v : Value) :
      Refuses ⟨.unary op operand, line⟩ [v] (.unaryRefused op v.kind line)
  | binary (op : BinaryOp) (left right : NodeId) (line : Nat) (l r : Value) :
      Refuses ⟨.binary op left right, line⟩ [l, r] (.binaryRefused op l.kind r.kind line)

theorem Node.Refuses.isRefusal {node : Node} {values : List Value} {event : Event}
    (h : node.Refuses values event) : event.isRefusal = true := by
  cases h with
  | unary => rfl
  | binary => rfl

/-- The run ended because an operator refused its operands. -/
def Halt.ofOperator : Halt → Bool
  | .error e => e.fault.ofOperator
  | .missing _ _ | .tooDeep => false

theorem Halt.exists_error_of_ofOperator {halt : Halt} (h : halt.ofOperator = true) :
    ∃ e, halt = .error e ∧ e.fault.ofOperator = true := by
  cases halt with
  | error e => exact ⟨e, rfl, h⟩
  | missing | tooDeep => cases h

theorem UnaryOp.ofOperator_of_apply {op : UnaryOp} {v : Value} {fault : Fault}
    (h : op.apply v = .error fault) : fault.ofOperator = true := by
  have hraises := op.raises_of_apply h (fun _ => "") ⟨0⟩
  cases hraises
  rfl

theorem BinaryOp.ofOperator_of_apply {op : BinaryOp} {l r : Value} {fault : Fault}
    (h : op.apply l r = .error fault) : fault.ofOperator = true := by
  have hraises := op.raises_of_apply h (fun _ => "") ⟨0⟩ ⟨0⟩
  cases hraises with
  | numeric | add | div => rfl

namespace Program

/-- On the way to the value of the root an operator has the values of its operands and raises the
error, which has its line, and the event is its refusal of these values. -/
def Refused (p : Program) (root : NodeId) (st : State) (e : EvalError) (event : Event) : Prop :=
  ∃ raiser node start values last, p.Visits root st raiser start ∧
    p.arena.get? raiser = some node ∧
    p.evaluateAll node.form.children start = ⟨.ok values, last⟩ ∧
    (p.evaluate raiser start).result = .error (.error e) ∧ e.line = some node.line ∧
    node.Refuses values event

/-- What the evaluation of the root shows: nothing, or a refusal that has ended it. -/
inductive Shows (p : Program) (root : NodeId) (st : State) : Outcome Value → Prop where
  | value {v : Value} {last : State} : last.trace = st.trace → Shows p root st ⟨.ok v, last⟩
  | nothing {halt : Halt} {last : State} : halt.ofOperator = false → last.trace = st.trace →
      Shows p root st ⟨.error halt, last⟩
  | refusal {e : EvalError} {event : Event} {last : State} : e.fault.ofOperator = true →
      p.Refused root st e event → last.trace = st.trace.push event →
      Shows p root st ⟨.error (.error e), last⟩

variable {p : Program}

/-- An operand is evaluated, the ones before it having shown nothing. If it fails, it has shown what
the node shows; otherwise the node goes on. -/
theorem Shows.operand {root child : NodeId} {node : Node} {before after : List NodeId}
    {values : List Value} {st mid : State} (hget : p.arena.get? root = some node)
    (hchildren : node.form.children = before ++ child :: after)
    (hbefore : p.evaluateAll before st = ⟨.ok values, mid⟩) (hmid : mid.trace = st.trace)
    (h : p.Shows child mid (p.evaluate child mid)) {next : Value → State → Outcome Value}
    (hnext : ∀ v last, p.evaluate child mid = ⟨.ok v, last⟩ → last.trace = st.trace →
      p.Shows root st (next v last)) :
    p.Shows root st ((p.evaluate child mid).andThen next) := by
  generalize p.evaluate child mid = o at h hnext
  cases h with
  | @value v last htrace => exact hnext v last rfl (htrace.trans hmid)
  | nothing hhalt htrace => exact .nothing hhalt (htrace.trans hmid)
  | refusal hfault hrefused htrace =>
    obtain ⟨raiser, found, start, operands, last, hvisits, hrefused⟩ := hrefused
    refine .refusal hfault ⟨raiser, found, start, operands, last,
      .operand hget hchildren hbefore hvisits, hrefused⟩ ?_
    rw [htrace, hmid]

theorem shows_applyUnary {id operand : NodeId} {op : UnaryOp} {line : Nat} {st mid : State}
    {v : Value} (hget : p.arena.get? id = some ⟨.unary op operand, line⟩)
    (hoperand : p.evaluate operand st = ⟨.ok v, mid⟩) (hmid : mid.trace = st.trace)
    (hvalue : p.evaluate id st = mid.applyUnary op v line) :
    p.Shows id st (mid.applyUnary op v line) := by
  rw [State.applyUnary] at hvalue ⊢
  rcases hop : op.apply v with fault | result
  · rw [hop] at hvalue
    refine .refusal (op.ofOperator_of_apply hop) ⟨id, _, st, [v], mid, .self id st, hget,
      evaluateAll_one hoperand, ?_, rfl, .unary op operand line v⟩ ?_
    · rw [hvalue]
      rfl
    · rw [← hmid]
      rfl
  · exact .value hmid

theorem shows_applyBinary {id left right : NodeId} {op : BinaryOp} {line : Nat}
    {st mid last : State} {l r : Value}
    (hget : p.arena.get? id = some ⟨.binary op left right, line⟩)
    (hleft : p.evaluate left st = ⟨.ok l, mid⟩) (hright : p.evaluate right mid = ⟨.ok r, last⟩)
    (hlast : last.trace = st.trace) (hvalue : p.evaluate id st = last.applyBinary op l r line) :
    p.Shows id st (last.applyBinary op l r line) := by
  rw [State.applyBinary] at hvalue ⊢
  rcases hop : op.apply l r with fault | result
  · rw [hop] at hvalue
    refine .refusal (op.ofOperator_of_apply hop) ⟨id, _, st, [l, r], last, .self id st, hget,
      evaluateAll_two hleft hright, ?_, rfl, .binary op left right line l r⟩ ?_
    · rw [hvalue]
      rfl
    · rw [← hlast]
      rfl
  · exact .value hlast

theorem shows_readName {id : NodeId} (name : Name) (line : Nat) (st : State) :
    p.Shows id st (p.readName name line st) := by
  rw [readName]
  split
  · exact .value rfl
  · exact .nothing rfl rfl

theorem shows_assignName {id : NodeId} (name : Name) (v : Value) (line : Nat) {st mid : State}
    (hmid : mid.trace = st.trace) : p.Shows id st (p.assignName name v line mid) := by
  rw [assignName]
  split
  · exact .value hmid
  · exact .nothing rfl hmid

/-- **Every expression.** It shows nothing if it succeeds, and at most one refusal otherwise. -/
theorem evaluate_shows (hp : p.arena.Acyclic) (id : NodeId) (st : State) :
    p.Shows id st (p.evaluate id st) := by
  induction id using hp.induct generalizing st with
  | missing id hget =>
    rw [evaluate_eq hp, hget]
    exact .nothing rfl rfl
  | node id form line hget ih =>
    have hvalue : p.evaluate id st = p.evalNode p.evaluate ⟨form, line⟩ st := by
      rw [evaluate_eq hp, hget]
    have hnone : p.evaluateAll [] st = ⟨.ok [], st⟩ := rfl
    rw [hvalue]
    cases form with
    | literal value => exact .value rfl
    | grouping inner =>
      rw [evalNode, ← Outcome.andThen_done (p.evaluate inner st)]
      refine Shows.operand hget rfl hnone rfl (ih inner (by simp) st) ?_
      intro v last _ hlast
      exact .value hlast
    | unary op operand =>
      refine Shows.operand hget rfl hnone rfl (ih operand (by simp) st) ?_
      intro v mid hoperand hmid
      refine shows_applyUnary hget hoperand hmid ?_
      rw [hvalue, evalNode, hoperand]
      rfl
    | binary op left right =>
      refine Shows.operand hget rfl hnone rfl (ih left (by simp) st) ?_
      intro l mid hleft hmid
      -- The right operand is evaluated where the left one has left the state.
      refine Shows.operand hget rfl (evaluateAll_one hleft) hmid (ih right (by simp) mid) ?_
      intro r last hright hlast
      refine shows_applyBinary hget hleft hright hlast ?_
      rw [hvalue, evalNode, hleft, Outcome.andThen, hright]
      rfl
    | read name => exact shows_readName name line st
    | assign name value =>
      refine Shows.operand hget rfl hnone rfl (ih value (by simp) st) ?_
      intro v mid _ hmid
      exact shows_assignName name v line hmid

/-! ## What statements show -/

/-- The value of a leaf leaves the scopes where they are. -/
theorem leafValue_keeps (hp : p.arena.Acyclic) {leaf : Stmt} {st last : State}
    {result : Except Halt Value} (hl : st.env.Linked) (h : p.leafValue leaf st = ⟨result, last⟩) :
    last.env.Linked ∧ last.env.depth = st.env.depth := by
  obtain ⟨root, -, heval⟩ | ⟨-, rfl⟩ := leafValue_cases h
  · have hevaluated := evaluate_evaluated hp root st hl
    rw [heval] at hevaluated
    exact ⟨hevaluated.linked, hevaluated.depth⟩
  · exact ⟨hl, rfl⟩

/-- A leaf that has its value has shown nothing. -/
theorem trace_leafValue (hp : p.arena.Acyclic) {leaf : Stmt} {st last : State} {v : Value}
    (h : p.leafValue leaf st = ⟨.ok v, last⟩) : last.trace = st.trace := by
  obtain ⟨root, -, heval⟩ | ⟨-, rfl⟩ := leafValue_cases h
  · have hshows := evaluate_shows hp root st
    rw [heval] at hshows
    cases hshows with
    | value htrace => exact htrace
  · rfl

/-- What a leaf does with its value adds no scope, and does not show. -/
theorem finish_keeps (leaf : Stmt) (v : Value) {st : State} (hl : st.env.Linked) :
    (leaf.finish v st).env.Linked ∧ (leaf.finish v st).env.depth = st.env.depth ∧
      (leaf.finish v st).trace = st.trace := by
  cases leaf with
  | declare name init line => exact ⟨hl.define name v, st.env.depth_define name v, rfl⟩
  | expression | print | block => exact ⟨hl, rfl, rfl⟩

theorem closeScope_shows {st : State} (hl : st.env.Linked) {depth n : Nat} (hpos : 0 < depth)
    (hdepth : st.env.depth = depth + (n + 1)) : st.closeScope.env.depth = depth + n ∧
      st.closeScope.trace = st.trace.push (.blockLeft (depth + n)) := by
  have hpop := (Env.framed_pop hl hpos hdepth).1
  refine ⟨hpop, ?_⟩
  rw [← hpop]
  rfl

/-- Closing the blocks that are open shows that they are left. -/
theorem closeScopes_shows {st : State} (hl : st.env.Linked) {depth n : Nat} (hpos : 0 < depth)
    (hdepth : st.env.depth = depth + n) :
    (st.closeScopes n).trace = st.trace ++ (Event.closing depth n).toArray := by
  induction n generalizing st with
  | zero => exact Array.append_empty.symm
  | succ n ih =>
    obtain ⟨hpop, hleft⟩ := closeScope_shows hl hpos hdepth
    have hrest := @ih st.closeScope hl.pop hpop
    rw [State.closeScopes, hrest, hleft, List.push_append_toArray]
    rfl

/-- **Moves.** The induction is on the moves. Along them the scopes above `depth` are those of the
blocks that are open, which is why the events count them. -/
theorem Completes.shows {done : List Move} {st mid : State} {values : List Value}
    (h : p.Completes done st values mid) (hp : p.arena.Acyclic) {depth n : Nat}
    (hnested : Move.Nested done n) (hl : st.env.Linked) (hpos : 0 < depth)
    (hdepth : st.env.depth = depth + n) :
    mid.env.Linked ∧ mid.env.depth = depth + Move.level done n ∧
      mid.trace = st.trace ++ (Move.events depth done n).toArray := by
  induction h generalizing n with
  | nil => exact ⟨hl, hdepth, Array.append_empty.symm⟩
  | @enter rest st last values _ ih =>
    have hpush : st.enterBlock.env.depth = depth + (n + 1) := by
      rw [State.env_enterBlock, Env.depth_push, hdepth]
      rfl
    have hentered : st.enterBlock.trace = st.trace.push (.blockEntered (depth + (n + 1))) := by
      rw [← hpush]
      rfl
    obtain ⟨hl', hdepth', htrace⟩ := ih hnested hl.push hpush
    refine ⟨hl', hdepth', ?_⟩
    rw [htrace, hentered, List.push_append_toArray]
    rfl
  | @leave rest st last values _ ih =>
    obtain ⟨hopen, hrest⟩ := hnested
    obtain ⟨n, rfl⟩ := Nat.exists_eq_add_one_of_ne_zero (Nat.ne_of_gt hopen)
    obtain ⟨hpop, hleft⟩ := closeScope_shows hl hpos hdepth
    obtain ⟨hl', hdepth', htrace⟩ := ih hrest hl.pop hpop
    refine ⟨hl', hdepth', ?_⟩
    rw [htrace, hleft, List.push_append_toArray]
    rfl
  | @leaf stmt rest st mid last value values hvalue _ ih =>
    obtain ⟨hmid, hsame⟩ := leafValue_keeps hp hl hvalue
    obtain ⟨hfinish, hsame', hquiet⟩ := finish_keeps stmt value hmid
    obtain ⟨hl', hdepth', htrace⟩ := ih hnested hfinish ((hsame'.trans hsame).trans hdepth)
    refine ⟨hl', hdepth', ?_⟩
    rw [htrace, hquiet, trace_leafValue hp hvalue]
    rfl

/-- A run of the statements with this result makes these moves: all of them, or those before the
first leaf that fails. -/
inductive Makes (p : Program) (stmts : List Stmt) (st : State) :
    Except Halt Unit → List Move → Prop where
  | all {values : List Value} {last : State} :
      p.Completes (Stmt.movesAll stmts) st values last →
      Makes p stmts st (.ok ()) (Stmt.movesAll stmts)
  | stopped {done : List Move} {leaf : Stmt} {values : List Value} {mid last : State}
      {halt : Halt} : done ++ [.leaf leaf] <+: Stmt.movesAll stmts →
      p.Completes done st values mid → p.leafValue leaf mid = ⟨.error halt, last⟩ →
      Makes p stmts st (.error halt) done

/-- The events of a run of statements with this result. They are nested, and but for a refusal they
are those of the blocks that the run moves into and out of, with the open ones closed at the end. An
operator has refused its operands if and only if that is what the statements have failed for, and
the refusal is that of the operator that raised the error. -/
structure Tells (p : Program) (stmts : List Stmt) (st : State) (result : Except Halt Unit)
    (events : List Event) : Prop where
  bracketed : Event.Bracketed st.env.depth 0 events
  blocks : ∃ done, p.Makes stmts st result done ∧ events.filter (!·.isRefusal) =
    Move.events st.env.depth done 0 ++ Event.closing st.env.depth (Move.level done 0)
  refusal_iff : (∃ event ∈ events, event.isRefusal = true) ↔
    ∃ e, result = .error (.error e) ∧ e.fault.ofOperator = true
  origin : ∀ event ∈ events, event.isRefusal = true → ∀ e, result = .error (.error e) →
    ∃ root mid, p.FailsAt stmts st root mid (.error e) ∧ p.Refused root mid e event

theorem tells_of_completes {stmts : List Stmt} {st last : State} {values : List Value}
    (h : p.Completes (Stmt.movesAll stmts) st values last) :
    p.Tells stmts st (.ok ()) (Move.events st.env.depth (Stmt.movesAll stmts) 0) := by
  obtain ⟨hnested, hlevel⟩ := Stmt.nested_movesAll stmts 0
  refine ⟨?_, ⟨_, .all h, ?_⟩, ?_, ?_⟩
  · have hclosed : Event.Bracketed st.env.depth (Move.level (Stmt.movesAll stmts) 0) [] := by
      rw [hlevel]
      exact .closed
    have hbracketed := Move.bracketed_events hnested hclosed
    rwa [List.append_nil] at hbracketed
  · rw [Move.filter_events, hlevel]
    exact (List.append_nil _).symm
  · constructor
    · intro ⟨event, hmem, hrefusal⟩
      rw [Move.not_isRefusal_of_mem_events hmem] at hrefusal
      cases hrefusal
    · intro ⟨e, he, _⟩
      cases he
  · intro event hmem hrefusal e he
    cases he

/-- An expression that fails has shown one event if an operator refused its operands, and none
otherwise. -/
theorem Shows.of_error {root : NodeId} {st last : State} {halt : Halt}
    (h : p.Shows root st ⟨.error halt, last⟩) : ∃ shown : Option Event,
      last.trace = st.trace ++ shown.toList.toArray ∧ shown.isSome = halt.ofOperator ∧
        ∀ event ∈ shown, event.isRefusal = true ∧
          ∀ e, halt = .error e → p.Refused root st e event := by
  cases h with
  | nothing hhalt htrace =>
    refine ⟨none, ?_, hhalt.symm, nofun⟩
    rw [htrace]
    exact Array.append_empty.symm
  | @refusal e event last hfault hrefused htrace =>
    refine ⟨some event, ?_, hfault.symm, ?_⟩
    · rw [htrace]
      exact Array.push_eq_append
    · intro shown hshown
      cases hshown
      have hown := hrefused
      obtain ⟨raiser, node, start, values, mid, -, -, -, -, -, hrefuses⟩ := hown
      refine ⟨hrefuses.isRefusal, ?_⟩
      intro e' he'
      cases he'
      exact hrefused

/-- Neither the moves before a leaf that fails nor the blocks that are closed show a refusal. -/
theorem mem_of_isRefusal {depth n : Nat} {done : List Move} {shown : Option Event} {event : Event}
    (h : event ∈ Move.events depth done 0 ++ (shown.toList ++ Event.closing depth n))
    (hrefusal : event.isRefusal = true) : event ∈ shown := by
  rcases List.mem_append.1 h with hmoves | hrest
  · rw [Move.not_isRefusal_of_mem_events hmoves] at hrefusal
    cases hrefusal
  · rcases List.mem_append.1 hrest with hshown | hclosed
    · exact Option.mem_toList.1 hshown
    · rw [Event.not_isRefusal_of_mem_closing hclosed] at hrefusal
      cases hrefusal

theorem tells_of_stops {stmts : List Stmt} {st mid last : State} {done : List Move} {leaf : Stmt}
    {values : List Value} {root : NodeId} {halt : Halt} {shown : Option Event}
    (hbegins : done ++ [.leaf leaf] <+: Stmt.movesAll stmts)
    (hdone : p.Completes done st values mid)
    (hleaf : p.leafValue leaf mid = ⟨.error halt, last⟩) (hroot : leaf.root? = some root)
    (heval : p.evaluate root mid = ⟨.error halt, last⟩) (hshown : shown.isSome = halt.ofOperator)
    (horigin : ∀ event ∈ shown, event.isRefusal = true ∧
      ∀ e, halt = .error e → p.Refused root mid e event) :
    p.Tells stmts st (.error halt) (Move.events st.env.depth done 0 ++
      (shown.toList ++ Event.closing st.env.depth (Move.level done 0))) := by
  have hclosing := Event.bracketed_closing st.env.depth (Move.level done 0)
  refine ⟨?_, ⟨done, .stopped hbegins hdone hleaf, ?_⟩, ?_, ?_⟩
  · obtain ⟨after, hafter⟩ := hbegins
    have hnested := (Stmt.nested_movesAll stmts 0).1
    rw [← hafter, List.append_assoc, Move.nested_append] at hnested
    refine Move.bracketed_events hnested.1 ?_
    rcases shown with _ | event
    · exact hclosing
    · exact .refused (horigin event rfl).1 (fun _ hlater => Event.isLeaving_of_mem_closing hlater)
        hclosing
  · -- What the leaf has shown is a refusal, and so it is left out.
    have hnone : shown.toList.filter (!·.isRefusal) = [] := by
      refine List.filter_eq_nil_iff.2 ?_
      intro event hevent
      rw [(horigin event (Option.mem_toList.1 hevent)).1]
      decide
    rw [List.filter_append, List.filter_append, Move.filter_events, Event.filter_closing, hnone,
      List.nil_append]
  · constructor
    · intro ⟨event, hevent, hrefusal⟩
      rw [Option.isSome_of_mem (mem_of_isRefusal hevent hrefusal)] at hshown
      obtain ⟨e, rfl, hfault⟩ := Halt.exists_error_of_ofOperator hshown.symm
      exact ⟨e, rfl, hfault⟩
    · intro ⟨e, he, hfault⟩
      cases he
      obtain ⟨event, hevent⟩ := Option.isSome_iff_exists.1 (hshown.trans hfault)
      refine ⟨event, ?_, (horigin event hevent).1⟩
      exact List.mem_append_right _ (List.mem_append_left _ (Option.mem_toList.2 hevent))
  · intro event hevent hrefusal e he
    cases he
    have hrefused := (horigin event (mem_of_isRefusal hevent hrefusal)).2 e rfl
    exact ⟨root, mid, ⟨done, leaf, values, hbegins, hdone, hroot, by rw [heval]⟩, hrefused⟩

/-- **Statements.** Their moves show the blocks, the leaf that fails may show a refusal, and the
blocks that are open then are closed. -/
theorem executeAll_tells (hp : p.arena.Acyclic) (stmts : List Stmt) {st : State}
    (hl : st.env.Linked) : ∃ events,
      (p.executeAll stmts st).state.trace = st.trace ++ events.toArray ∧
        p.Tells stmts st (p.executeAll stmts st).result events := by
  have hdepth : st.env.depth = st.env.depth + 0 := rfl
  have hnested := (Stmt.nested_movesAll stmts 0).1
  obtain ⟨values, last, hdone⟩ |
      ⟨done, leaf, after, values, mid, halt, last, hmoves, hdone, hleaf⟩ :=
    p.progresses (Stmt.movesAll stmts) st
  · obtain ⟨-, -, htrace⟩ := hdone.shows hp hnested hl hl.depth_pos hdepth
    rw [executeAll_of_completes hdone]
    exact ⟨_, htrace, tells_of_completes hdone⟩
  · have hbegins : done ++ [.leaf leaf] <+: Stmt.movesAll stmts := ⟨after, by simp [hmoves]⟩
    rw [hmoves] at hnested
    obtain ⟨hmid, hmiddepth, hmidtrace⟩ :=
      hdone.shows hp (Move.nested_append.1 hnested).1 hl hl.depth_pos hdepth
    obtain ⟨hlast, hlastdepth⟩ := leafValue_keeps hp hmid hleaf
    obtain ⟨root, hroot, heval⟩ | ⟨hvalue, -⟩ := leafValue_cases hleaf
    · have hshows := evaluate_shows hp root mid
      rw [heval] at hshows
      obtain ⟨shown, hlasttrace, hshown, horigin⟩ := hshows.of_error
      rw [executeAll_of_stops hdone hleaf hbegins]
      refine ⟨_, ?_, tells_of_stops hbegins hdone hleaf hroot heval hshown horigin⟩
      rw [closeScopes_shows hlast hl.depth_pos (hlastdepth.trans hmiddepth), hlasttrace, hmidtrace]
      simp only [Array.append_assoc, List.append_toArray, List.append_assoc]
    · cases hvalue

/-- An error that ends a program is on a line. -/
theorem line_of_interpret (hp : p.arena.Acyclic) {stmts : List Stmt} {st : State} {e : EvalError}
    (h : (p.interpret stmts st).result = .error (.error e)) : ∃ line, e.line = some line := by
  rw [result_interpret] at h
  obtain ⟨root, mid, raiser, node, -, hraised, -⟩ := executeAll_attributed hp h
  exact ⟨node.line, hraised.line⟩

/-- **The trace tells the run.** In an arena without cycles and from any environment, a program is
traced by an event that counts its statements, the events of the blocks it enters, and one event
behind them for the error that it returns, if it returns one. The blocks are nested and all of them
are left, whichever way the program ends, and the depths are those of the scopes that are live. An
operator that refuses its operands shows exactly if it is what the program has failed for, with its
operator, the kinds of its operands and the line of the error. Every event reads as it should,
level, message and fields: the count, the depth, the symbol and the names of the types with the
line, the line of the error with its kind. -/
theorem trace_tells_run (p : Program) (hp : p.arena.Acyclic) (st : State)
    (hst : st.env.Reachable) (stmts : List Stmt) :
    let o := p.interpret stmts st
    ∃ events, o.state.trace =
        st.trace ++ (.started stmts.length :: (events ++ o.failures)).toArray ∧
      p.Tells stmts (st.record (.started stmts.length)) o.result events ∧
      ∀ event ∈ .started stmts.length :: (events ++ o.failures), event.Reads event.shown := by
  intro o
  have hstart : (st.record (.started stmts.length)).env.Linked := hst.linked
  obtain ⟨events, htrace, htells⟩ := executeAll_tells hp stmts hstart
  have hresult : o.result = _ := p.result_interpret stmts st
  have hfailures : o.failures =
      (p.executeAll stmts (st.record (.started stmts.length))).failures := by
    rw [Outcome.failures, hresult, Outcome.failures]
  have hreads : ∀ event ∈ o.failures, event.Reads event.shown := by
    intro event hevent
    rw [Outcome.failures] at hevent
    split at hevent
    · next e he =>
      obtain ⟨line, hline⟩ := line_of_interpret hp he
      rw [List.mem_singleton.1 hevent]
      exact Event.reads_failed hline
    · cases hevent
  refine ⟨events, ?_, ?_, ?_⟩
  · calc o.state.trace
        = (p.executeAll stmts (st.record (.started stmts.length))).state.trace ++
            (p.executeAll stmts (st.record (.started stmts.length))).failures.toArray :=
          Outcome.trace_reported _
      _ = st.trace.push (.started stmts.length) ++ events.toArray ++ o.failures.toArray := by
          rw [htrace, hfailures]
          rfl
      _ = st.trace ++ (.started stmts.length :: (events ++ o.failures)).toArray := by
          rw [Array.append_assoc, List.append_toArray events, List.push_append_toArray]
  · rwa [hresult]
  · refine List.forall_mem_cons.2 ⟨.started _, ?_⟩
    exact List.forall_mem_append.2 ⟨htells.bracketed.reads, hreads⟩

/-- From two scopes, two blocks are entered, the inner difference is refused its operands, and both
blocks are left before the error is recorded. -/
theorem trace_tells_run_brokenDifference :
    let stmts : List Stmt := [.block [.block [.print ⟨0⟩ 9] 8] 7]
    let o := brokenDifference.interpret stmts calling
    brokenDifference.arena.Acyclic ∧ calling.env.Reachable ∧
      o.state.trace = #[.started 1, .blockEntered 3, .blockEntered 4,
        .binaryRefused .sub .nil .boolean 4, .blockLeft 3, .blockLeft 2,
        .failed ⟨.typeMismatch .numbers, "Operands must be numbers", some 4⟩] ∧
      o.state.trace.map Event.shown = #[
        ("DEBUG", "span interpret", [("count", "1")]),
        ("TRACE", "enter block", [("depth", "3")]),
        ("TRACE", "enter block", [("depth", "4")]),
        ("DEBUG", "binary operator rejected operands",
          [("op", "-"), ("left", "nil"), ("right", "boolean"), ("line", "4")]),
        ("TRACE", "leave block", [("depth", "3")]),
        ("TRACE", "leave block", [("depth", "2")]),
        ("DEBUG", "runtime error",
          [("line", "Some(4)"), ("kind", "TypeMismatch \x7b expected: Numbers \x7d")])] ∧
      ∃ events, o.state.trace =
          calling.trace ++ (.started 1 :: (events ++ o.failures)).toArray ∧
        brokenDifference.Tells stmts (calling.record (.started 1)) o.result events ∧
        ∀ event ∈ .started 1 :: (events ++ o.failures), event.Reads event.shown := by
  intro stmts o
  have hreach : calling.env.Reachable := ⟨[.define ⟨1⟩ .nil, .push], rfl⟩
  exact ⟨acyclic_brokenDifference, hreach, by decide +kernel, by decide +kernel,
    trace_tells_run brokenDifference acyclic_brokenDifference calling hreach stmts⟩

end Program

end ScriptCore
