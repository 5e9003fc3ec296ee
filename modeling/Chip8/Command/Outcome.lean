import Chip8.Command.Directory
import Chip8.Log

/-!
# The outcome of a command

What a command reports is its exit code, its output and its log, and the outcome is the report with
the directory that is left behind. The log holds lines of every severity; how many of them are shown
depends on how often `-v` was given.
-/

namespace Chip8

/-- The least grave severity that is shown for a number of `-v` flags. -/
def Severity.ofVerbosity : Nat → Severity
  | 0 => .warning
  | 1 => .info
  | 2 => .debug
  | _ => .trace

structure Report where
  exitCode : UInt32
  stdout : String
  log : List LogLine
  deriving DecidableEq

structure Outcome where
  exitCode : UInt32
  stdout : String
  log : List LogLine
  directory : Directory
  deriving DecidableEq

/-- The log of a command that failed: the failure and what it was caused by. -/
def Outcome.failureLog (message : String) (causes : List String) : List LogLine :=
  ⟨.error, message⟩ :: causes.map fun cause ↦ ⟨.info, "caused by: " ++ cause⟩

namespace Report

def failed (message : String) (causes : List String) : Report :=
  ⟨1, "", Outcome.failureLog message causes⟩

def outcome (r : Report) (d : Directory) : Outcome :=
  ⟨r.exitCode, r.stdout, r.log, d⟩

end Report

def shownLog (verbosity : Nat) (log : List LogLine) : String :=
  String.join ((log.filter (·.isVisible (.ofVerbosity verbosity))).map fun l ↦ l.text ++ "\n")

def Report.stderr (r : Report) (verbosity : Nat) : String :=
  shownLog verbosity r.log

def Outcome.stderr (o : Outcome) (verbosity : Nat) : String :=
  shownLog verbosity o.log

end Chip8
