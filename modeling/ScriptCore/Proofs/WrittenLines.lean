/-
Lines, and the text they become.

A run decides which lines it writes, in which order and to which of the two streams. What a sink
makes of them is a matter of their text alone (`Streams.ofLines`): it goes behind what the console
shows, or behind what a buffer keeps, or nowhere. `Output.Receives` says so without naming the
functions that write, and `Output.receives_writeAll` is the bridge to them.
-/
import ScriptCore.Output

set_option autoImplicit false

namespace ScriptCore

/-- A line written to one of the two streams. -/
inductive Line where
  | printed (text : String)
  | reported (text : String)

/-! ## The text of lines -/

namespace Streams

/-- Further text behind what was written, on each stream. -/
def append (first second : Streams) : Streams :=
  ⟨first.out ++ second.out, first.err ++ second.err⟩

/-- The text of lines, each on its stream and each with the end of the line. -/
def ofLines : List Line → Streams
  | [] => .empty
  | .printed text :: rest => append ⟨text ++ "\n", ""⟩ (ofLines rest)
  | .reported text :: rest => append ⟨"", text ++ "\n"⟩ (ofLines rest)

@[simp] theorem append_empty (s : Streams) : s.append .empty = s := by
  simp [append, empty]

@[simp] theorem empty_append (s : Streams) : empty.append s = s := by
  simp [append, empty]

theorem append_assoc (s t u : Streams) : (s.append t).append u = s.append (t.append u) := by
  simp [append, String.append_assoc]

theorem ofLines_append (first second : List Line) :
    ofLines (first ++ second) = (ofLines first).append (ofLines second) := by
  induction first with
  | nil => simp [ofLines]
  | cons line rest ih => cases line <;> simp [ofLines, ih, append_assoc]

theorem printLine_eq (s : Streams) (text : String) :
    s.printLine text = s.append ⟨text ++ "\n", ""⟩ := by
  simp [printLine, append, String.append_assoc]

theorem reportLine_eq (s : Streams) (text : String) :
    s.reportLine text = s.append ⟨"", text ++ "\n"⟩ := by
  simp [reportLine, append, String.append_assoc]

end Streams

/-! ## Where the text goes -/

namespace Output

/-- Write a line to its stream. -/
def writeLine (o : Output) : Line → Output
  | .printed text => o.printLine text
  | .reported text => o.reportLine text

/-- Write lines in order. -/
def writeAll (o : Output) (lines : List Line) : Output := lines.foldl writeLine o

theorem writeAll_append (o : Output) (first second : List Line) :
    o.writeAll (first ++ second) = (o.writeAll first).writeAll second := List.foldl_append

/-- Text goes where the sink leads: behind what the console shows, behind what a buffer keeps, or
nowhere. -/
def receive (o : Output) (text : Streams) : Output := o.write (·.append text)

theorem receive_receive (o : Output) (first second : Streams) :
    (o.receive first).receive second = o.receive (first.append second) := by
  obtain ⟨sink, console⟩ := o
  cases sink <;> simp [receive, write, Streams.append_assoc]

theorem receive_empty (o : Output) : o.receive .empty = o := by
  obtain ⟨sink, console⟩ := o
  cases sink <;> simp [receive, write]

/-- Writing a line is writing its text. -/
theorem writeLine_eq (o : Output) (line : Line) :
    o.writeLine line = o.receive (.ofLines [line]) := by
  cases line <;>
    simp [writeLine, printLine, reportLine, receive, Streams.printLine_eq, Streams.reportLine_eq,
      Streams.ofLines]

/-- Writing lines is writing their text. -/
theorem writeAll_eq (o : Output) (lines : List Line) :
    o.writeAll lines = o.receive (.ofLines lines) := by
  induction lines generalizing o with
  | nil => exact (receive_empty o).symm
  | cons line rest ih =>
    -- The first line goes behind what is there, and the text of the others behind it.
    calc o.writeAll (line :: rest)
        = (o.writeLine line).writeAll rest := rfl
      _ = (o.receive (.ofLines [line])).receive (.ofLines rest) := by rw [ih, writeLine_eq]
      _ = o.receive (.ofLines (line :: rest)) := by
        rw [receive_receive, ← Streams.ofLines_append, List.singleton_append]

/-- A buffer takes every change. -/
theorem sink_write {o : Output} {captured : Streams} (h : o.sink = .buffer captured)
    (change : Streams → Streams) : (o.write change).sink = .buffer (change captured) := by
  rw [write, h]

/-- A buffer takes the text of the lines. -/
theorem sink_writeAll {o : Output} {captured : Streams} (h : o.sink = .buffer captured)
    (lines : List Line) : (o.writeAll lines).sink = .buffer (captured.append (.ofLines lines)) := by
  rw [writeAll_eq]
  exact sink_write h (·.append (.ofLines lines))

/-- The second output is the first one after the text has arrived: the console shows it behind what
it showed, a buffer keeps it behind what it kept, silence drops it, and nothing else is changed. -/
inductive Receives (text : Streams) : Output → Output → Prop where
  | console (shown : Streams) :
      Receives text ⟨.console, shown⟩ ⟨.console, ⟨shown.out ++ text.out, shown.err ++ text.err⟩⟩
  | buffer (kept shown : Streams) :
      Receives text ⟨.buffer kept, shown⟩
        ⟨.buffer ⟨kept.out ++ text.out, kept.err ++ text.err⟩, shown⟩
  | silent (shown : Streams) : Receives text ⟨.silent, shown⟩ ⟨.silent, shown⟩

theorem receives_writeAll (o : Output) (lines : List Line) :
    o.Receives (.ofLines lines) (o.writeAll lines) := by
  rw [writeAll_eq]
  obtain ⟨sink, shown⟩ := o
  cases sink with
  | console => exact .console shown
  | buffer kept => exact .buffer kept shown
  | silent => exact .silent shown

end Output

end ScriptCore
