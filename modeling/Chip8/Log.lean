/-!
# Log lines

Lines of text with a severity. A reader who asks for a severity gets the lines of that severity and
of every graver one.
-/

namespace Chip8

inductive Severity where
  | error
  | warning
  | info
  | debug
  | trace
  deriving DecidableEq, Repr

namespace Severity

def label : Severity → String
  | .error => "ERROR"
  | .warning => "WARN"
  | .info => "INFO"
  | .debug => "DEBUG"
  | .trace => "TRACE"

def rank : Severity → Nat
  | .error => 0
  | .warning => 1
  | .info => 2
  | .debug => 3
  | .trace => 4

end Severity

structure LogLine where
  severity : Severity
  message : String
  deriving DecidableEq, Repr

namespace LogLine

def text (l : LogLine) : String :=
  l.severity.label ++ ": " ++ l.message

def isVisible (threshold : Severity) (l : LogLine) : Bool :=
  l.severity.rank ≤ threshold.rank

end LogLine

end Chip8
