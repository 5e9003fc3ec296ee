import Chip8.Log
import Chip8.Source
import Chip8.State.Step

/-!
# The machine

A state with a switch. While the machine runs, one worker turns the instruction cycle and another
one the timer cycle; a stopped machine has no workers. A program can be loaded at any time, and a
reset needs a stopped machine.
-/

namespace Chip8

/-- Who turns a cycle of a running machine. -/
inductive Worker where
  | instructions
  | timers
  deriving DecidableEq, Repr

@[ext] structure Machine where
  state : State
  running : Bool
  workers : List Worker
  deriving DecidableEq

namespace Machine

structure RunningError where
  deriving DecidableEq, Repr

def RunningError.message (_ : RunningError) : String :=
  "the machine is running"

inductive LoadError where
  | unreadable (e : ReadError)
  | unfit (e : Memory.LoadError)
  deriving DecidableEq, Repr

namespace LoadError

def message : LoadError → String
  | .unreadable e => e.message
  | .unfit e => e.message

def causes : LoadError → List String
  | .unreadable e => e.causes
  | .unfit _ => []

end LoadError

/-- What a change of the machine reports. -/
inductive Notice where
  | started
  | alreadyRunning
  | stopped
  | wasReset
  deriving DecidableEq, Repr

def Notice.line : Notice → LogLine
  | .started => ⟨.debug, "machine started"⟩
  | .alreadyRunning => ⟨.debug, "machine already running"⟩
  | .stopped => ⟨.debug, "machine stopped"⟩
  | .wasReset => ⟨.debug, "machine reset"⟩

def initial (rng : XorShift) : Machine :=
  ⟨.initial rng, false, []⟩

def load (m : Machine) (program : List UInt8) : Except Memory.LoadError Machine :=
  match m.state.load program with
  | .ok state => .ok { m with state }
  | .error e => .error e

def loadFrom (m : Machine) (source : Source) : Except LoadError Machine :=
  match source.readAll with
  | .error e => .error (.unreadable e)
  | .ok program =>
    match m.load program with
    | .ok loaded => .ok loaded
    | .error e => .error (.unfit e)

def setKey (m : Machine) (k : Key) (isDown : Bool) : Machine :=
  { m with state := m.state.setKey k isDown }

/-- Puts a worker to each of the cycles, unless the machine runs already. -/
def start (m : Machine) : Machine :=
  if m.running then m
  else { m with running := true, workers := m.workers ++ [.instructions, .timers] }

def startNotices (m : Machine) : List Notice :=
  if m.running then [.alreadyRunning] else [.started]

def stop (m : Machine) : Machine :=
  { m with running := false, workers := [] }

def stopNotices (m : Machine) : List Notice :=
  if m.workers = [] then [] else [.stopped]

def reset (m : Machine) : Except RunningError Machine :=
  if m.running then .error {} else .ok { m with state := m.state.reset }

/-- One turn of a cycle, which a stopped machine does not make. -/
def turn (m : Machine) (worker : Worker) : Machine :=
  if m.running then
    match worker with
    | .instructions => { m with state := m.state.step }
    | .timers => { m with state := m.state.tick }
  else m

end Machine

end Chip8
