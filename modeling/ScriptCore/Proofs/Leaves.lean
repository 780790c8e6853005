/-
Programs as their leaves.

A block does nothing itself: it opens a scope, runs what is inside, and closes the scope. What
does the work are the statements that are no blocks, the leaves. A program is then a flat list of
moves, into a block, out of one, or over a leaf, and running it is making the moves in order
(`executeAll_eq_moveAll`). The first leaf whose value does not come about ends the run, from any
depth of blocks.

`Completes` says what it is to get through some moves, with the value of each leaf on the way.
Whatever comes behind, the run gets as far (`moveAll_of_completes`); so a run that fails is told by
the moves before the failing leaf and that leaf alone, and the text it printed by the values before
it (`Completes.sink_eq`).
-/
import ScriptCore.Proofs.Schedule
import ScriptCore.Proofs.Effects

set_option autoImplicit false

namespace ScriptCore

/-! ## Leaves and moves -/

namespace Stmt

mutual

/-- The statements inside that are no blocks, in source order. -/
def leaves : Stmt → List Stmt
  | .block body _ => leavesAll body
  | .expression value line => [.expression value line]
  | .print value line => [.print value line]
  | .declare name init line => [.declare name init line]

/-- The leaves of several statements. -/
def leavesAll : List Stmt → List Stmt
  | [] => []
  | stmt :: rest => leaves stmt ++ leavesAll rest

end

/-- The expression of a leaf; a variable may be declared without one. -/
def root? : Stmt → Option NodeId
  | .expression value _ | .print value _ => some value
  | .declare _ init _ => init
  | .block _ _ => none

/-- What a leaf does with its value. -/
def finish : Stmt → Value → State → State
  | .print _ _, value, st => st.printLine value.text
  | .declare name _ _, value, st => st.define name value
  | .expression _ _, _, st | .block _ _, _, st => st

/-- The text a leaf prints, with the end of the line. -/
def printed : Stmt → Value → String
  | .print _ _, value => value.text ++ "\n"
  | .expression _ _, _ | .declare _ _ _, _ | .block _ _, _ => ""

end Stmt

/-- A step of a run, as seen between the leaves. -/
inductive Move where
  | enter
  | leave
  | leaf (stmt : Stmt)

namespace Move

/-- The leaves among moves. -/
def leaves : List Move → List Stmt
  | [] => []
  | .leaf stmt :: rest => stmt :: leaves rest
  | .enter :: rest | .leave :: rest => leaves rest

/-- The number of open blocks after moves, from a number that are open. -/
def level : List Move → Nat → Nat
  | [], n => n
  | .enter :: rest, n => level rest (n + 1)
  | .leave :: rest, n => level rest (n - 1)
  | .leaf _ :: rest, n => level rest n

theorem leaves_append (first second : List Move) :
    leaves (first ++ second) = leaves first ++ leaves second := by
  induction first with
  | nil => rfl
  | cons move rest ih =>
    rcases move with _ | _ | stmt
    · exact ih
    · exact ih
    · exact congrArg (stmt :: ·) ih

end Move

namespace Stmt

mutual

/-- The moves of a statement. -/
def moves : Stmt → List Move
  | .block body _ => .enter :: (movesAll body ++ [.leave])
  | .expression value line => [.leaf (.expression value line)]
  | .print value line => [.leaf (.print value line)]
  | .declare name init line => [.leaf (.declare name init line)]

/-- The moves of statements, one after the other. -/
def movesAll : List Stmt → List Move
  | [] => []
  | stmt :: rest => moves stmt ++ movesAll rest

end

mutual

theorem leaves_moves : (stmt : Stmt) → Move.leaves stmt.moves = stmt.leaves
  | .block body _ => by
    rw [moves, leaves, Move.leaves, Move.leaves_append, leaves_movesAll body]
    exact List.append_nil _
  | .expression _ _ | .print _ _ | .declare _ _ _ => by
    rw [moves, leaves]
    rfl

/-- The moves pass over the leaves in source order. -/
theorem leaves_movesAll : (stmts : List Stmt) → Move.leaves (movesAll stmts) = leavesAll stmts
  | [] => by
    rw [movesAll, leavesAll]
    rfl
  | stmt :: rest => by
    rw [movesAll, leavesAll, Move.leaves_append, leaves_moves stmt, leaves_movesAll rest]

end

end Stmt

/-! ## Making the moves -/

namespace Program

/-- The value of a leaf. -/
def leafValue (p : Program) (leaf : Stmt) (st : State) : Outcome Value :=
  p.initialValue leaf.root? st

/-- A leaf does as its expression, and one without an expression has the value `nil`. -/
theorem leafValue_cases {p : Program} {leaf : Stmt} {st last : State} {result : Except Halt Value}
    (h : p.leafValue leaf st = ⟨result, last⟩) :
    (∃ root, leaf.root? = some root ∧ p.evaluate root st = ⟨result, last⟩) ∨
      result = .ok .nil ∧ last = st := by
  rw [leafValue] at h
  rcases hroot : leaf.root? with _ | root
  · rw [hroot] at h
    cases h
    exact .inr ⟨rfl, rfl⟩
  · rw [hroot] at h
    exact .inl ⟨root, rfl, h⟩

/-- Make moves in order, with a number of blocks open. The first leaf that fails ends the run and
closes the open blocks. -/
def moveAll (p : Program) : List Move → Nat → State → Outcome Unit
  | [], _, st => .done () st
  | .enter :: rest, n, st => p.moveAll rest (n + 1) st.enterBlock
  | .leave :: rest, n, st => p.moveAll rest (n - 1) st.closeScope
  | .leaf stmt :: rest, n, st =>
    ((p.leafValue stmt st).closing n).andThen fun v st => p.moveAll rest n (stmt.finish v st)

variable {p : Program}

mutual

theorem moveAll_moves : (stmt : Stmt) → (rest : List Move) → (n : Nat) → (st : State) →
    p.moveAll (stmt.moves ++ rest) n st =
      ((p.execute stmt st).closing n).andThen fun _ st => p.moveAll rest n st
  | .expression id line, rest, n, st => by
    rw [execute, Stmt.moves]
    simp [moveAll, leafValue, Stmt.root?, initialValue, Stmt.finish]
  | .print id line, rest, n, st => by
    rw [execute, Stmt.moves]
    simp [moveAll, leafValue, Stmt.root?, initialValue, Stmt.finish]
  | .declare name init line, rest, n, st => by
    rw [execute, Stmt.moves]
    simp [moveAll, leafValue, Stmt.root?, Stmt.finish]
  | .block body _, rest, n, st => by
    rw [execute, Stmt.moves, List.cons_append, List.append_assoc, moveAll,
      moveAll_movesAll body]
    -- Either way out of the body closes one scope more than the block was opened in.
    obtain ⟨halt | _, last⟩ := p.executeAll body st.enterBlock
    · rfl
    · rfl

/-- Making the moves of statements is executing them in order. -/
theorem moveAll_movesAll : (stmts : List Stmt) → (rest : List Move) → (n : Nat) → (st : State) →
    p.moveAll (Stmt.movesAll stmts ++ rest) n st =
      ((p.executeAll stmts st).closing n).andThen fun _ st => p.moveAll rest n st
  | [], rest, n, st => by
    rw [executeAll, Stmt.movesAll]
    rfl
  | stmt :: stmts, rest, n, st => by
    rw [executeAll, Stmt.movesAll, List.append_assoc, moveAll_moves stmt]
    simp [moveAll_movesAll stmts]

end

theorem executeAll_eq_moveAll (p : Program) (stmts : List Stmt) (st : State) :
    p.executeAll stmts st = p.moveAll (Stmt.movesAll stmts) 0 st := by
  have h := moveAll_movesAll (p := p) stmts [] 0 st
  rw [List.append_nil] at h
  rw [h]
  obtain ⟨halt | _, last⟩ := p.executeAll stmts st <;> rfl

/-- From a state all moves succeed, the leaves having the given values, and lead to a state. -/
inductive Completes (p : Program) : List Move → State → List Value → State → Prop where
  | nil (st : State) : Completes p [] st [] st
  | enter {rest : List Move} {st last : State} {values : List Value} :
      Completes p rest st.enterBlock values last → Completes p (.enter :: rest) st values last
  | leave {rest : List Move} {st last : State} {values : List Value} :
      Completes p rest st.closeScope values last → Completes p (.leave :: rest) st values last
  | leaf {stmt : Stmt} {rest : List Move} {st mid last : State} {value : Value}
      {values : List Value} :
      p.leafValue stmt st = ⟨.ok value, mid⟩ →
      Completes p rest (stmt.finish value mid) values last →
      Completes p (.leaf stmt :: rest) st (value :: values) last

/-- Moves that succeed are made, whatever comes behind them. -/
theorem moveAll_of_completes {done : List Move} {st mid : State} {values : List Value}
    (h : p.Completes done st values mid) (rest : List Move) (n : Nat) :
    p.moveAll (done ++ rest) n st = p.moveAll rest (Move.level done n) mid := by
  induction h generalizing n with
  | nil => rfl
  | enter _ ih | leave _ ih => exact ih _
  | @leaf stmt _ _ _ _ _ _ hvalue _ ih =>
    rw [List.cons_append, moveAll, hvalue]
    exact ih n

theorem Completes.length_values {done : List Move} {st mid : State} {values : List Value}
    (h : p.Completes done st values mid) : values.length = (Move.leaves done).length := by
  induction h with
  | nil => rfl
  | enter _ ih | leave _ ih => exact ih
  | leaf _ _ ih => exact congrArg (· + 1) ih

/-- Moves come to their end, or to a leaf that fails. -/
def Progresses (p : Program) (moves : List Move) (st : State) : Prop :=
  (∃ values last, p.Completes moves st values last) ∨
    ∃ done leaf after values mid halt last, moves = done ++ .leaf leaf :: after ∧
      p.Completes done st values mid ∧ p.leafValue leaf mid = ⟨.error halt, last⟩

/-- A move that succeeds goes in front of whatever the rest comes to. -/
theorem Progresses.cons {move : Move} {rest : List Move} {st next : State}
    (hmove : ∀ {moves values last}, p.Completes moves next values last →
      ∃ values', p.Completes (move :: moves) st values' last) (h : p.Progresses rest next) :
    p.Progresses (move :: rest) st := by
  obtain ⟨values, last, h⟩ | ⟨done, leaf, after, values, mid, halt, last, rfl, h, hleaf⟩ := h
  · obtain ⟨values', h'⟩ := hmove h
    exact .inl ⟨values', last, h'⟩
  · obtain ⟨values', h'⟩ := hmove h
    exact .inr ⟨move :: done, leaf, after, values', mid, halt, last, rfl, h', hleaf⟩

theorem progresses (p : Program) (moves : List Move) (st : State) : p.Progresses moves st := by
  induction moves generalizing st with
  | nil => exact .inl ⟨[], st, .nil st⟩
  | cons move rest ih =>
    rcases move with _ | _ | stmt
    · exact (ih st.enterBlock).cons fun h => ⟨_, .enter h⟩
    · exact (ih st.closeScope).cons fun h => ⟨_, .leave h⟩
    · rcases hvalue : p.leafValue stmt st with ⟨halt | value, next⟩
      · -- The first leaf fails: no moves come before it.
        exact .inr ⟨[], stmt, rest, [], st, halt, next, rfl, .nil st, hvalue⟩
      · exact (ih (stmt.finish value next)).cons fun h => ⟨value :: _, .leaf hvalue h⟩

/-- The run of a program that gets through all its moves. -/
theorem executeAll_of_completes {stmts : List Stmt} {st last : State} {values : List Value}
    (h : p.Completes (Stmt.movesAll stmts) st values last) :
    p.executeAll stmts st = ⟨.ok (), last⟩ := by
  have hmoves := moveAll_of_completes h [] 0
  rw [List.append_nil] at hmoves
  rw [executeAll_eq_moveAll, hmoves, moveAll]
  rfl

/-- The run of a program that comes to a leaf that fails; what stands behind the leaf plays no
part. -/
theorem executeAll_of_stops {stmts : List Stmt} {done : List Move} {leaf : Stmt}
    {st mid last : State} {values : List Value} {halt : Halt}
    (h : p.Completes done st values mid) (hleaf : p.leafValue leaf mid = ⟨.error halt, last⟩)
    (hstmts : done ++ [.leaf leaf] <+: Stmt.movesAll stmts) :
    p.executeAll stmts st = ⟨.error halt, last.closeScopes (Move.level done 0)⟩ := by
  obtain ⟨after, hafter⟩ := hstmts
  rw [executeAll_eq_moveAll, ← hafter, List.append_assoc, moveAll_of_completes h,
    List.singleton_append, moveAll, hleaf]
  rfl

end Program

/-! ## What is written -/

namespace Program

variable {p : Program}

theorem output_leafValue (p : Program) (leaf : Stmt) (st : State) :
    (p.leafValue leaf st).state.output = st.output :=
  (p.readsEnv_initialValue leaf.root?).output_eq st

/-- A leaf adds its text to a buffer. -/
theorem sink_finish (leaf : Stmt) (value : Value) {st : State} {captured : Streams}
    (hsink : st.output.sink = .buffer captured) :
    (leaf.finish value st).output.sink =
      .buffer { captured with out := captured.out ++ leaf.printed value } := by
  cases leaf with
  | print id line =>
    have hprint := Output.sink_write hsink (·.printLine value.text)
    rw [Streams.printLine, String.append_assoc] at hprint
    exact hprint
  | expression | declare | block =>
    rw [Stmt.printed, String.append_empty]
    exact hsink

/-- What moves add to a buffer is the text of their leaves, in order. -/
theorem Completes.sink_eq {done : List Move} {st mid : State} {values : List Value}
    (h : p.Completes done st values mid) {captured : Streams}
    (hsink : st.output.sink = .buffer captured) :
    mid.output.sink = .buffer
      ⟨captured.out ++ String.join (List.zipWith Stmt.printed (Move.leaves done) values),
        captured.err⟩ := by
  induction h generalizing captured with
  | nil => simpa [Move.leaves] using hsink
  | enter _ ih | leave _ ih => exact ih hsink
  | @leaf stmt rest st mid last value values hvalue _ ih =>
    have hmid : mid.output = st.output := by
      rw [← output_leafValue p stmt st, hvalue]
    rw [← hmid] at hsink
    have hfinish := sink_finish stmt value hsink
    rw [ih hfinish, Move.leaves, List.zipWith_cons_cons, String.join_cons, String.append_assoc]

end Program

namespace Output

/-- Printed lines leave what a buffer has of reports. -/
theorem sink_writeAll_printed {lines : List Line}
    (hlines : ∀ line ∈ lines, ∃ text, line = .printed text) {o : Output} {captured : Streams}
    (hsink : o.sink = .buffer captured) :
    ∃ out, (o.writeAll lines).sink = .buffer { captured with out } := by
  induction lines generalizing o captured with
  | nil => exact ⟨captured.out, hsink⟩
  | cons line rest ih =>
    obtain ⟨⟨text, rfl⟩, hrest⟩ := List.forall_mem_cons.1 hlines
    obtain ⟨out, hout⟩ := ih hrest (sink_write hsink (·.printLine text))
    exact ⟨out, hout⟩

end Output

theorem State.output_closeScopes (n : Nat) (st : State) :
    (st.closeScopes n).output = st.output := by
  induction n generalizing st with
  | zero => rfl
  | succ n ih => exact ih st.closeScope

/-- The text by which the end of a program is reported. -/
def Outcome.report (o : Outcome Unit) : String :=
  match o.result with
  | .error (.error e) => e.text ++ "\n"
  | _ => ""

namespace Program

variable {p : Program}

/-- Running statements reports nothing. -/
theorem sink_of_readsEnv {run : State → Outcome Unit}
    (h : ReadsEnv (fun line => ∃ text, line = .printed text) run) {st : State} {captured : Streams}
    (hsink : st.output.sink = .buffer captured) :
    ∃ out, (run st).state.output.sink = .buffer { captured with out } := by
  obtain ⟨result, env, lines, events, hlines, hrun⟩ := h st.env
  rw [hrun st rfl]
  exact Output.sink_writeAll_printed hlines hsink

/-- The report goes behind what the statements have written. -/
theorem sink_interpret {stmts : List Stmt} {st : State} {captured : Streams}
    (hsink : (p.executeAll stmts (st.record (.started stmts.length))).state.output.sink =
      .buffer captured) :
    (p.interpret stmts st).state.output.sink =
      .buffer { captured with err := captured.err ++ (p.interpret stmts st).report } := by
  rw [Outcome.report, result_interpret, interpret]
  generalize p.executeAll stmts (st.record (.started stmts.length)) = o at hsink
  obtain ⟨halt | _, last⟩ := o
  · rcases halt with e | ⟨size, id⟩ | _
    · have hreport := Output.sink_write hsink (·.reportLine e.text)
      rw [Streams.reportLine, String.append_assoc] at hreport
      exact hreport
    · simpa using hsink
    · simpa using hsink
  · simpa using hsink

/-! ## The run of a program -/

theorem performAll_ne_tooDeep (acts : List Act) (w : Pending) (st : State) :
    (p.performAll acts w st).result ≠ .error .tooDeep := by
  induction acts generalizing w st with
  | nil => exact nofun
  | cons act rest ih =>
    rw [performAll]
    rcases ho : p.perform act w st with ⟨halt | w', next⟩
    · -- An act fails as the language says, never for lack of depth.
      obtain ⟨hfails, -⟩ := perform_error ho
      intro hdeep
      cases hdeep
      cases hfails
    · exact ih w' next

theorem evaluate_ne_tooDeep (hp : p.arena.Acyclic) {id : NodeId} {st last : State} {halt : Halt}
    (h : p.evaluate id st = ⟨.error halt, last⟩) : halt ≠ .tooDeep := by
  rintro rfl
  have hforget := evaluate_eq_performAll hp id st
  have hne := performAll_ne_tooDeep (p := p) (p.exprSchedule id) .empty st
  rw [h] at hforget
  generalize p.performAll (p.exprSchedule id) .empty st = o at hforget hne
  obtain ⟨halt | w, next⟩ := o
  · cases hforget
    exact hne rfl
  · cases hforget

theorem leafValue_ne_tooDeep (hp : p.arena.Acyclic) {leaf : Stmt} {st last : State} {halt : Halt}
    (h : p.leafValue leaf st = ⟨.error halt, last⟩) : halt ≠ .tooDeep := by
  obtain ⟨root, -, heval⟩ | ⟨hvalue, -⟩ := leafValue_cases h
  · exact evaluate_ne_tooDeep hp heval
  · cases hvalue

/-- Statements that begin with the same moves, up to a leaf that fails, run alike. -/
theorem interpret_alike_of_stops {stmts others : List Stmt} {done : List Move} {leaf : Stmt}
    {st mid last : State} {values : List Value} {halt : Halt}
    (h : p.Completes done (st.record (.started stmts.length)) values mid)
    (hleaf : p.leafValue leaf mid = ⟨.error halt, last⟩)
    (hstmts : done ++ [.leaf leaf] <+: Stmt.movesAll stmts)
    (hothers : done ++ [.leaf leaf] <+: Stmt.movesAll others) :
    (p.interpret others st).Alike (p.interpret stmts st) := by
  refine Outcome.Alike.reported ?_
  rw [executeAll_of_stops h hleaf hstmts, ← executeAll_of_stops h hleaf hothers]
  -- The two runs now differ in how many statements the trace says there are.
  have hreads : ReadsEnv (fun _ => True) (p.executeAll others) :=
    p.readsEnv_executeAll (fun _ => trivial) others
  exact hreads.alike rfl rfl

/-- The run stops at a leaf: it is the leaf of that number, it fails where the moves before it
lead, and but for the open blocks that are closed the run leaves the scopes as they are then. Of all
that stands behind the leaf nothing is looked at. -/
structure StopsAt (p : Program) (stmts : List Stmt) (st : State) (k : Nat) (done : List Move)
    (mid : State) (halt : Halt) (leaf : Stmt) : Prop where
  number : (Stmt.leavesAll stmts)[k]? = some leaf
  fails : (p.leafValue leaf mid).result = .error halt
  halt_ne : halt ≠ .tooDeep
  env : (p.interpret stmts st).state.env =
    ((p.leafValue leaf mid).state.closeScopes (Move.level done 0)).env
  others : ∀ others, done ++ [.leaf leaf] <+: Stmt.movesAll others →
    (p.interpret others st).Alike (p.interpret stmts st)

/-- The run makes the moves in `done`, which complete the first `k` leaves with the given values and
lead to the state `mid`. These are all the moves and the program ends there, or it stops at the next
leaf. What it prints goes to a buffer, and behind it the report. -/
structure RunsLeaves (p : Program) (stmts : List Stmt) (st : State) (captured : Streams) (k : Nat)
    (values : List Value) (done : List Move) (mid : State) : Prop where
  begins : done <+: Stmt.movesAll stmts
  leaves : Move.leaves done = (Stmt.leavesAll stmts).take k
  count : values.length = k
  completes : p.Completes done (st.record (.started stmts.length)) values mid
  ok_iff : (p.interpret stmts st).result = .ok () ↔ k = (Stmt.leavesAll stmts).length
  ends : (p.interpret stmts st).result = .ok () →
    done = Stmt.movesAll stmts ∧ (p.interpret stmts st).state.env = mid.env
  stops : ∀ halt, (p.interpret stmts st).result = .error halt →
    ∃ leaf, p.StopsAt stmts st k done mid halt leaf
  sink : (p.interpret stmts st).state.output.sink = .buffer
    ⟨captured.out ++
        String.join (List.zipWith Stmt.printed ((Stmt.leavesAll stmts).take k) values),
      captured.err ++ (p.interpret stmts st).report⟩

theorem runsLeaves_of_completes {stmts : List Stmt} {st last : State} {captured : Streams}
    {values : List Value} (hsink : st.output.sink = .buffer captured)
    (h : p.Completes (Stmt.movesAll stmts) (st.record (.started stmts.length)) values last) :
    p.RunsLeaves stmts st captured (Stmt.leavesAll stmts).length values (Stmt.movesAll stmts)
      last := by
  have hleaves : Move.leaves (Stmt.movesAll stmts) =
      (Stmt.leavesAll stmts).take (Stmt.leavesAll stmts).length := by
    rw [List.take_length, Stmt.leaves_movesAll]
  have hrun := executeAll_of_completes h
  have hresult : (p.interpret stmts st).result = .ok () := by rw [result_interpret, hrun]
  have hcount : values.length = (Stmt.leavesAll stmts).length := by
    rw [h.length_values, Stmt.leaves_movesAll]
  refine ⟨List.prefix_refl _, hleaves, hcount, h, by simp [hresult], fun _ => ⟨rfl, ?_⟩, ?_, ?_⟩
  · rw [env_interpret, hrun]
  · intro halt hhalt
    rw [hresult] at hhalt
    cases hhalt
  · have hwritten := h.sink_eq hsink
    rw [← hleaves]
    refine sink_interpret (Eq.trans ?_ hwritten)
    rw [hrun]

theorem runsLeaves_of_stops (hp : p.arena.Acyclic) {stmts : List Stmt} {st mid last : State}
    {captured : Streams} {done after : List Move} {leaf : Stmt} {values : List Value} {halt : Halt}
    (hsink : st.output.sink = .buffer captured)
    (hmoves : Stmt.movesAll stmts = done ++ .leaf leaf :: after)
    (h : p.Completes done (st.record (.started stmts.length)) values mid)
    (hleaf : p.leafValue leaf mid = ⟨.error halt, last⟩) :
    p.RunsLeaves stmts st captured (Move.leaves done).length values done mid := by
  have hbegins : done ++ [.leaf leaf] <+: Stmt.movesAll stmts := ⟨after, by simp [hmoves]⟩
  have hall : Stmt.leavesAll stmts = Move.leaves done ++ leaf :: Move.leaves after := by
    rw [← Stmt.leaves_movesAll, hmoves, Move.leaves_append, Move.leaves]
  have hleaves : Move.leaves done = (Stmt.leavesAll stmts).take (Move.leaves done).length := by
    rw [hall, List.take_left]
  have hrun := executeAll_of_stops h hleaf hbegins
  have hresult : (p.interpret stmts st).result = .error halt := by rw [result_interpret, hrun]
  refine ⟨⟨_, hmoves.symm⟩, hleaves, h.length_values, h, by simp [hresult, hall], ?_, ?_, ?_⟩
  · intro hok
    rw [hresult] at hok
    cases hok
  · intro found hfound
    rw [hresult] at hfound
    cases hfound
    refine ⟨leaf, ?_, ?_, leafValue_ne_tooDeep hp hleaf, ?_, fun others hothers => ?_⟩
    · simp [hall]
    · rw [hleaf]
    · rw [env_interpret, hrun, hleaf]
    · exact interpret_alike_of_stops h hleaf hbegins hothers
  · -- The leaf that fails writes nothing, and neither do the blocks that are closed.
    have hlast : last.output = mid.output := by
      rw [← output_leafValue p leaf mid, hleaf]
    have hwritten := h.sink_eq hsink
    rw [← hleaves]
    refine sink_interpret (Eq.trans ?_ hwritten)
    rw [hrun, State.output_closeScopes, hlast]

/-- **Leaf by leaf, up to the first failure.** In an arena without cycles and with a buffer, a
program completes its first `k` leaves. It succeeds if these are all; otherwise leaf `k` fails,
and nothing behind it is looked at. The buffer gains what the completed leaves print and, if an
error ends the program, one report. Only a whole program reports, and an expression writes
nothing. -/
theorem interpret_stops_at_first_failure (p : Program) (hp : p.arena.Acyclic) (st : State)
    (captured : Streams) (hsink : st.output.sink = .buffer captured) :
    (∀ stmts, ∃ k values done mid, p.RunsLeaves stmts st captured k values done mid) ∧
      (∀ id, (p.evaluate id st).state.output = st.output) ∧
      (∀ stmt, ∃ out, (p.execute stmt st).state.output.sink = .buffer { captured with out }) ∧
      ∀ body, ∃ out,
        (p.executeBlock body st).state.output.sink = .buffer { captured with out } := by
  have hreads : ∀ stmt, ReadsEnv (fun line => ∃ text, line = .printed text) (p.execute stmt) :=
    fun stmt => p.readsEnv_execute (fun text => ⟨text, rfl⟩) stmt
  refine ⟨fun stmts => ?_, fun id => p.output_evaluate id st,
    fun stmt => sink_of_readsEnv (hreads stmt) hsink, fun body => ?_⟩
  · obtain ⟨values, last, h⟩ | ⟨done, leaf, after, values, mid, halt, last, hmoves, h, hleaf⟩ :=
      p.progresses (Stmt.movesAll stmts) (st.record (.started stmts.length))
    · exact ⟨_, values, _, last, runsLeaves_of_completes hsink h⟩
    · exact ⟨_, values, done, mid, runsLeaves_of_stops hp hsink hmoves h hleaf⟩
  · obtain ⟨out, hout⟩ := sink_of_readsEnv (hreads (.block body 0)) hsink
    rw [execute_block] at hout
    exact ⟨out, hout⟩

/-- Two blocks deep, the second leaf reads a variable that nobody declared; two more leaves stand
behind it. -/
def undeclared : List Stmt :=
  [.block [.print ⟨4⟩ 1, .block [.expression ⟨1⟩ 2, .print ⟨4⟩ 3] 2] 1, .print ⟨4⟩ 4]

/-- A buffer that others have written to. -/
def resumed : State := ⟨.new, .new (.buffer ⟨"first\n", "old\n"⟩), #[]⟩

/-- One leaf is completed; its line and the report stand behind what was there. -/
theorem interpret_stops_at_first_failure_undeclared :
    tangled.arena.Acyclic ∧ resumed.output.sink = .buffer ⟨"first\n", "old\n"⟩ ∧
      (∃ k values done mid,
        tangled.RunsLeaves undeclared resumed ⟨"first\n", "old\n"⟩ k values done mid) ∧
      (tangled.interpret undeclared resumed).state.output.sink =
        .buffer ⟨"first\ntrue\n", "old\nUndefined variable 'x'. [line 2]\n"⟩ := by
  have hruns := (interpret_stops_at_first_failure tangled Arena.acyclic_tangled resumed _ rfl).1
  refine ⟨Arena.acyclic_tangled, rfl, hruns undeclared, ?_⟩
  decide +kernel

end Program

end ScriptCore
