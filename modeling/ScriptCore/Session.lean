/-
Sessions: a program, the state it is run in, and the steps that can be taken on them from outside.

A session runs statements and expressions, works on the environment directly, opens and closes
scopes around other steps, and moves to a new sink, a new program or a new environment. The steps
are flat: `enter` and `leave` need not be balanced, and closing a scope closes whichever scope is
current then, so at the root it does nothing.
-/
import ScriptCore.Run.Statement

set_option autoImplicit false

namespace ScriptCore

/-- A scope as seen from outside: its position, its parent, and which of some names it binds
itself. -/
structure ScopeView where
  index : Nat
  parent : Option Nat
  bound : List Name
deriving DecidableEq, Repr

/-- The scopes in reach, innermost first, with those of the names that each binds. -/
def Env.views (env : Env) (names : List Name) : List ScopeView :=
  env.chain.map fun (index, scope) => ⟨index, scope.parent, names.filter (scope.binds ·)⟩

/-- What can be done in a session. -/
inductive Step where
  | push
  | pop
  | define (name : Name) (value : Value)
  | assign (name : Name) (value : Value) (line : Nat)
  | lookup (name : Name)
  | get (name : Name) (line : Nat)
  | scopes (names : List Name)
  | scope (index : Nat) (name : Name)
  | interpret (stmts : List Stmt)
  | execute (stmt : Stmt)
  | block (stmts : List Stmt)
  | evaluate (id : NodeId)
  /-- Open a scope around the steps that follow. -/
  | enter
  /-- Close the current scope, as a block does on its way out. -/
  | leave
  | clear
  | printLine (line : String)
  | reportLine (line : String)
  /-- Go on in the same environment with another sink. -/
  | redirect (sink : Sink)
  /-- Go on in the same environment with another program and another sink. -/
  | rebuild (program : Program) (sink : Sink)
  /-- Start over in a new environment with another sink. -/
  | restart (sink : Sink)

/-- What a step answers. -/
inductive Answer where
  | nothing
  | opened (index : Nat)
  | found (value : Option Value)
  | got (result : Except Unbound Value)
  | assigned (result : Except Unbound Unit)
  | scopes (views : List ScopeView)
  | scope (parentAndBound : Option (Option Nat × Bool))
  | ran (result : Except Halt Unit)
  | evaluated (result : Except Halt Value)

/-- A program and the state it is run in. -/
structure Session where
  program : Program
  state : State

namespace Session

/-- A session in a new environment. -/
def new (program : Program) (sink : Sink) : Session := ⟨program, .new sink⟩

/-- Intern a text into the table of the program. -/
def intern (s : Session) (text : String) : Except NameOverflow (Name × Session) :=
  (s.program.names.intern text).map fun (name, names) =>
    (name, { s with program := { s.program with names } })

/-- The session with another environment. -/
def withEnv (s : Session) (env : Env) : Session := { s with state := { s.state with env } }

/-- The session with another output. -/
def withOutput (s : Session) (output : Output) : Session :=
  { s with state := { s.state with output } }

/-- Keep the state that a run ended in. -/
def after {α : Type} (s : Session) (o : Outcome α) : Session := { s with state := o.state }

/-- Take a step. -/
def perform (s : Session) : Step → Answer × Session
  | .push =>
    let env := s.state.env.push
    (.opened env.current, s.withEnv env)
  | .pop => (.nothing, s.withEnv s.state.env.pop)
  | .define name value => (.nothing, s.withEnv (s.state.env.define name value))
  | .assign name value line =>
    match s.state.env.assign name value line with
    | .ok env => (.assigned (.ok ()), s.withEnv env)
    | .error unbound => (.assigned (.error unbound), s)
  | .lookup name => (.found (s.state.env.lookup? name), s)
  | .get name line => (.got (s.state.env.get name line), s)
  | .scopes names => (.scopes (s.state.env.views names), s)
  | .scope index name =>
    (.scope ((s.state.env.scope? index).map fun scope => (scope.parent, scope.binds name)), s)
  | .interpret stmts =>
    let o := s.program.interpret stmts s.state
    (.ran o.result, s.after o)
  | .execute stmt =>
    let o := s.program.execute stmt s.state
    (.ran o.result, s.after o)
  | .block stmts =>
    let o := s.program.executeBlock stmts s.state
    (.ran o.result, s.after o)
  | .evaluate id =>
    let o := s.program.evaluate id s.state
    (.evaluated o.result, s.after o)
  | .enter => (.nothing, { s with state := s.state.openScope })
  | .leave => (.nothing, { s with state := s.state.closeScope })
  | .clear => (.nothing, s.withOutput s.state.output.clear)
  | .printLine line => (.nothing, { s with state := s.state.printLine line })
  | .reportLine line => (.nothing, { s with state := s.state.reportLine line })
  | .redirect sink => (.nothing, s.withOutput (s.state.output.redirect sink))
  | .rebuild program sink =>
    (.nothing, { s.withOutput (s.state.output.redirect sink) with program })
  | .restart sink => (.nothing, (s.withOutput (s.state.output.redirect sink)).withEnv .new)

end Session

end ScriptCore
