/-
Where a program writes. There are two streams, one for what is printed and one for reported
errors, and three kinds of sink behind them: the console, a buffer that keeps the text to be read
back, and silence. A run never reads what it wrote, so the sink cannot change its course.
-/

set_option autoImplicit false

namespace ScriptCore

/-- Text written to the two streams so far. -/
structure Streams where
  out : String
  err : String
deriving DecidableEq, Repr, Inhabited

namespace Streams

/-- Nothing written. -/
def empty : Streams := ⟨"", ""⟩

/-- Add a line to what is printed. -/
def printLine (s : Streams) (line : String) : Streams := { s with out := s.out ++ line ++ "\n" }

/-- Add a line to what is reported. -/
def reportLine (s : Streams) (line : String) : Streams := { s with err := s.err ++ line ++ "\n" }

end Streams

/-- Where lines go. -/
inductive Sink where
  | console
  | buffer (captured : Streams)
  | silent
deriving DecidableEq, Repr

namespace Sink

/-- A buffer with nothing in it. -/
def emptyBuffer : Sink := buffer .empty

/-- The text a sink can give back; only a buffer keeps any. -/
def captured : Sink → Streams
  | buffer streams => streams
  | console | silent => .empty

/-- Forget the captured text. -/
def clear : Sink → Sink
  | buffer _ => emptyBuffer
  | console => console
  | silent => silent

end Sink

/-- The sink in use, and everything that reached the console through any sink. -/
structure Output where
  sink : Sink
  console : Streams
deriving DecidableEq, Repr

namespace Output

/-- A sink, with a console nothing has been written to. -/
def new (sink : Sink) : Output := ⟨sink, .empty⟩

/-- Let a change of streams reach the place the sink stands for. Writing always succeeds, on the
console as well. -/
def write (o : Output) (change : Streams → Streams) : Output :=
  match o.sink with
  | .console => { o with console := change o.console }
  | .buffer streams => { o with sink := .buffer (change streams) }
  | .silent => o

/-- Print a line. -/
def printLine (o : Output) (line : String) : Output := o.write (·.printLine line)

/-- Report a line. -/
def reportLine (o : Output) (line : String) : Output := o.write (·.reportLine line)

/-- The text captured so far. -/
def captured (o : Output) : Streams := o.sink.captured

/-- Forget the captured text. -/
def clear (o : Output) : Output := { o with sink := o.sink.clear }

/-- Use another sink from now on. -/
def redirect (o : Output) (sink : Sink) : Output := { o with sink }

end Output

end ScriptCore
