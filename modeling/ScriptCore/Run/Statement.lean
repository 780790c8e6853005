/-
Running statements. Statements run in order and the first failure ends the run, through any depth
of blocks; a block closes its scope on the way out in every case. Only `interpret`, which runs a
whole program, reports an error, so an error that passes through many blocks is reported once.
-/
import ScriptCore.Run.Machine

set_option autoImplicit false

namespace ScriptCore

/-- Close the current scope, whatever the result is. -/
def Outcome.closeScope {α : Type} (o : Outcome α) : Outcome α :=
  { o with state := o.state.closeScope }

namespace Program

/-- The value a declaration binds. -/
def initialValue (p : Program) : Option NodeId → State → Outcome Value
  | some id, st => p.evaluate id st
  | none, st => .done .nil st

mutual

/-- Run one statement. -/
def execute (p : Program) : Stmt → State → Outcome Unit
  | .expression id _, st => (p.evaluate id st).andThen fun _ st => .done () st
  | .print id _, st => (p.evaluate id st).andThen fun value st => .done () (st.printLine value.text)
  | .declare name init _, st =>
    (p.initialValue init st).andThen fun value st => .done () (st.define name value)
  | .block body _, st => (p.executeAll body st.enterBlock).closeScope

/-- Run statements in order, up to the first failure. -/
def executeAll (p : Program) : List Stmt → State → Outcome Unit
  | [], st => .done () st
  | stmt :: rest, st => (p.execute stmt st).andThen fun _ st => p.executeAll rest st

end

/-- Run statements in a scope of their own. -/
def executeBlock (p : Program) (body : List Stmt) (st : State) : Outcome Unit :=
  (p.executeAll body st.enterBlock).closeScope

/-- Run a program: its statements in the current scope, and a report of the error if one ends
it. -/
def interpret (p : Program) (stmts : List Stmt) (st : State) : Outcome Unit :=
  let o := p.executeAll stmts (st.record (.started stmts.length))
  match o.result with
  | .error (.error e) => ⟨o.result, (o.state.record (.failed e)).reportLine e.text⟩
  | _ => o

/-! ## The equations -/

theorem execute_block (p : Program) (body : List Stmt) (line : Nat) (st : State) :
    p.execute (.block body line) st = p.executeBlock body st := by
  rw [execute, executeBlock]

@[simp] theorem executeAll_nil (p : Program) (st : State) : p.executeAll [] st = .done () st := by
  rw [executeAll]

theorem executeAll_cons (p : Program) (stmt : Stmt) (rest : List Stmt) (st : State) :
    p.executeAll (stmt :: rest) st =
      (p.execute stmt st).andThen fun _ st => p.executeAll rest st := by
  rw [executeAll]

/-- A list of statements runs as its two parts do, the second only if the first succeeds. -/
theorem executeAll_append (p : Program) (first second : List Stmt) (st : State) :
    p.executeAll (first ++ second) st =
      (p.executeAll first st).andThen fun _ st => p.executeAll second st := by
  induction first generalizing st with
  | nil => simp
  | cons stmt rest ih => simp [executeAll_cons, ih]

/-- The report at the end of a program changes neither its result nor the environment. -/
theorem result_interpret (p : Program) (stmts : List Stmt) (st : State) :
    (p.interpret stmts st).result =
      (p.executeAll stmts (st.record (.started stmts.length))).result := by
  rw [interpret]
  split <;> rfl

theorem env_interpret (p : Program) (stmts : List Stmt) (st : State) :
    (p.interpret stmts st).state.env =
      (p.executeAll stmts (st.record (.started stmts.length))).state.env := by
  rw [interpret]
  split <;> rfl

end Program

end ScriptCore
