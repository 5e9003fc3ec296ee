import Chip8.Proofs.Instruction.Text
import Chip8.Proofs.Keypad.Wait
import Chip8.Proofs.Stack.Move

/-!
# What the log says of the call stack

Whoever reads the whole log can follow every step, and tell how deep the stack is without a look at
it: a call makes it deeper by one and a return less deep by one, but for those that a warning
follows.
-/

namespace Chip8

namespace LogLine

/-- The line traces an instruction with the mnemonic, which is the second word of the line. -/
def traces (m : Mnemonic) (l : LogLine) : Bool :=
  l.severity = .trace &&
    ((l.message.toList.dropWhile (· ≠ ' ')).drop 1).takeWhile (· ≠ ' ') = m.text.toList

/-- The line is a warning that starts with the text. -/
def warns (start : String) (l : LogLine) : Bool :=
  l.severity = .warning && start.toList.isPrefixOf l.message.toList

/-- By how much the stack grows with what the line tells. -/
def depthChange (l : LogLine) : Int :=
  (if l.traces .call then 1 else 0) - (if l.warns "call stack overflow" then 1 else 0) -
    (if l.traces .ret then 1 else 0) + (if l.warns "no subroutine to return from" then 1 else 0)

/-- By how much the stack grows with all that the lines tell. -/
def growth : List LogLine → Int
  | [] => 0
  | l :: log => l.depthChange + growth log

end LogLine

/-! ### Lines and what they report -/

namespace Event

end Event

namespace State

/-- All that a history reports. -/
def reports (s : State) (history : List Action) : List Event :=
  (s.trace history).flatMap fun e ↦ e.1.events e.2

/-- The lines of a history, as a reader sees them who asks for a severity. -/
def log (s : State) (threshold : Severity) (history : List Action) : List LogLine :=
  ((s.reports history).map Event.line).filter (·.isVisible threshold)

/-- By how much the stack grows with what the events report. -/
def growth (events : List Event) : Int :=
  LogLine.growth (events.map Event.line)

variable {s : State} {a : Action} {x : Register} {history : List Action}

end State

end Chip8
