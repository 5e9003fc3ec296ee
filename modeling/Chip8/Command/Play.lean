import Chip8.Command.Arguments
import Chip8.Command.Files
import Chip8.Command.Outcome
import Chip8.Machine.Prompt
import Chip8.Text.Numeral

/-!
# The command that runs a program

Runs a program for some time with some keys held down, and prints what is on the screen at the end.
The duration is checked first, then the keys from left to right, and then the program is opened,
read and loaded.
-/

namespace Chip8

structure PlayRequest where
  verbosity : Nat
  duration : String
  keys : List String
  file : String
  deriving DecidableEq, Repr

inductive PlayFailure where
  | duration (fault : Numeral.Fault)
  | key (text : String)
  | openFile (path : String) (fault : Fault)
  | load (path : String) (e : Machine.LoadError)
  deriving DecidableEq, Repr

namespace PlayFailure

def message : PlayFailure → String
  | .duration _ => "invalid duration argument"
  | .key text => "invalid key '" ++ text ++ "' (expected a hex digit)"
  | .openFile path _ => "could not open file '" ++ path ++ "'"
  | .load path _ => "could not load program from file '" ++ path ++ "'"

def causes : PlayFailure → List String
  | .duration fault => [fault.message]
  | .key _ => []
  | .openFile _ fault => [fault.message]
  | .load _ e => e.message :: e.causes

end PlayFailure

structure PreparedRun where
  milliseconds : Nat
  machine : Machine
  deriving DecidableEq

namespace PlayRequest

def specs : List OptionSpec :=
  [⟨"duration", 'd', true, false⟩, ⟨"key", 'k', true, true⟩, ⟨"verbose", 'v', false, true⟩]

/-- Reads the arguments of the command. A program runs for a second if nothing else is said. -/
def parse (arguments : List String) : Except UsageError PlayRequest := do
  let a ← Arguments.parse specs arguments
  let some file ← a.operand? | throw .missingOperand
  return {
    verbosity := a.count "verbose"
    duration := (a.text? "duration").getD "1000"
    keys := a.texts "key"
    file }

def parseDuration (text : String) : Except PlayFailure Nat :=
  match Numeral.parse 10 UInt64.size text.toList with
  | .ok n => .ok n
  | .error fault => .error (.duration fault)

def parseKey (text : String) : Except PlayFailure Key :=
  match Numeral.parse 16 16 text.toList with
  | .ok n => .ok (Key.ofNat n)
  | .error _ => .error (.key text)

def parseKeys : List String → Except PlayFailure (List Key)
  | [] => .ok []
  | text :: texts =>
    match parseKey text with
    | .error e => .error e
    | .ok k => (parseKeys texts).map (k :: ·)

def holdKeys (machine : Machine) (keys : List Key) : Machine :=
  keys.foldl (fun m k ↦ m.setKey k true) machine

def stoppedLine (s : State) : LogLine where
  severity := .info
  message :=
    "stopped at " ++ s.pc.placeText ++ " (DT = " ++ toString s.timers.delay.toNat ++ ", ST = " ++
      toString s.timers.sound.toNat ++ ")"

/-- Runs the machine from its start to its stop, with the workers at work as the schedule says. -/
def play (r : PlayRequest) (run : PreparedRun) (σ : Schedule) : Report :=
  let ran := run.machine.start.runOn σ
  let stopped := ran.1.stop
  let log :=
    run.machine.startNotices.map Machine.Notice.line ++
      [⟨.info, "running '" ++ r.file ++ "' for " ++ toString run.milliseconds ++ " ms"⟩] ++
      ran.2 ++ ran.1.stopNotices.map Machine.Notice.line ++ [stoppedLine stopped.state]
  ⟨0, stopped.state.screen.text, log⟩

variable {m : Type → Type} [Monad m]

/-- While a machine runs, the command waits for some time. What the workers do meanwhile is for the
host to say. -/
def attempt (files : Files m) (generator : m XorShift) (wait : Nat → m Schedule)
    (r : PlayRequest) : ExceptT PlayFailure m Report := do
  let milliseconds ← parseDuration r.duration
  let keys ← parseKeys r.keys
  let source ← unlessFault (.openFile r.file) (files.openRead r.file)
  let fresh := Machine.initial (← generator)
  let loaded ← (fresh.loadFrom source).mapError (PlayFailure.load r.file)
  return r.play ⟨milliseconds, holdKeys loaded keys⟩ (← wait milliseconds)

def perform (files : Files m) (generator : m XorShift) (wait : Nat → m Schedule)
    (r : PlayRequest) : m Report := do
  match ← (r.attempt files generator wait).run with
  | .ok report => return report
  | .error e => return .failed e.message e.causes

/-- Performs the request in a directory, on a host that schedules each run by its duration. -/
def runPaced (r : PlayRequest) (pace : Nat → Schedule) (rng : XorShift) (d : Directory) : Outcome :=
  let (report, after) :=
    (r.perform .inDirectory (pure rng) fun milliseconds ↦ pure (pace milliseconds)).run d
  report.outcome after

def run (r : PlayRequest) (rng : XorShift) (d : Directory) : Outcome :=
  r.runPaced .prompt rng d

end PlayRequest

end Chip8
