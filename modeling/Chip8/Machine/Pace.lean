import Chip8.Machine.Basic
import Chip8.State.Event

/-!
# The pace of a machine

Each worker of a running machine has a clock. It looks at the clock, makes a turn for every tick
since it last looked, and sleeps until the next tick is due. A worker that looks too late catches up
on some of the ticks and drops the others. When a worker looks, and how its turns fall between those
of the other one, is not for the machine to decide: that is the schedule of a run.
-/

namespace Chip8

structure Clock where
  frequency : UInt32
  deriving DecidableEq, Repr

namespace Clock

/-- How often the clock has ticked at a time, in nanoseconds. -/
def ticks (c : Clock) (time : Nat) : Nat :=
  time * c.frequency.toNat / 1000000000

/-- The time when the clock, which is not to stand still, has ticked once more than `last` times. -/
def dueTime (c : Clock) (last : Nat) : Nat :=
  ((last + 1) * 1000000000 + c.frequency.toNat - 1) / c.frequency.toNat

def instructions : Clock := ⟨500⟩

def timers : Clock := ⟨60⟩

end Clock

def Worker.clock : Worker → Clock
  | .instructions => .instructions
  | .timers => .timers

/-- How many turns a worker makes for one look at its clock at most. -/
def maxCatchUp : Nat := 8

/-! ### One worker -/

/-- What a worker is doing. -/
inductive Cycle where
  /-- It has not begun yet, and has no clock. -/
  | idle
  /-- Its clock had ticked `last` times when it last looked, and it does not look before `wakes`. -/
  | asleep (last wakes : Nat)
  /-- It is about to make a turn, and has `more` turns to make after it. -/
  | atWork (last more : Nat)
  deriving DecidableEq, Repr

/-- What a worker does next, with the time at which it reads its clock. -/
inductive Act where
  | enter (time : Nat)
  | look (time : Nat)
  | turn
  deriving DecidableEq, Repr

def Act.time? : Act → Option Nat
  | .enter time | .look time => some time
  | .turn => none

namespace Cycle

def withDue (c : Clock) (last : Nat) : (due : Nat) → Cycle
  | 0 => .asleep last (c.dueTime last)
  | more + 1 => .atWork last more

def next? (c : Clock) : Cycle → Act → Option Cycle
  | .idle, .enter time => some (.asleep (c.ticks time) time)
  | .asleep last wakes, .look time =>
    if wakes ≤ time then
      some (withDue c (c.ticks time) (min (c.ticks time - last) maxCatchUp))
    else none
  | .atWork last more, .turn => some (withDue c last more)
  | _, _ => none

/-- How many ticks are dropped at a look. -/
def dropped (c : Clock) : Cycle → Act → Nat
  | .asleep last _, .look time => c.ticks time - last - maxCatchUp
  | _, _ => 0

end Cycle

/-! ### Both workers -/

structure Moment where
  worker : Worker
  act : Act
  deriving DecidableEq, Repr

/-- The time and what each worker is doing. -/
structure Pacing where
  now : Nat
  cycle : Worker → Cycle

namespace Pacing

def initial : Pacing :=
  ⟨0, fun _ ↦ .idle⟩

/-- The worker does something else now. -/
def change (p : Pacing) (now : Nat) (w : Worker) (cycle : Cycle) : Pacing :=
  ⟨now, fun other ↦ if other = w then cycle else p.cycle other⟩

/-- What comes after a moment, if it can come about. Time does not go back, and what one worker does
leaves the other one alone. -/
def next? (p : Pacing) (a : Moment) : Option Pacing :=
  let now := a.act.time?.getD p.now
  if now < p.now then none
  else ((p.cycle a.worker).next? a.worker.clock a.act).map (p.change now a.worker)

def run? (p : Pacing) : List Moment → Option Pacing
  | [] => some p
  | a :: moments => (p.next? a).bind fun next ↦ next.run? moments

/-- No worker has turns left to make. -/
def IsQuiet (p : Pacing) : Prop :=
  ∀ w last more, p.cycle w ≠ .atWork last more

def lines (p : Pacing) (a : Moment) : List LogLine :=
  match (p.cycle a.worker).dropped a.worker.clock a.act with
  | 0 => []
  | n + 1 =>
    [⟨.trace, "dropping " ++ toString (n + 1) ++ " ticks at " ++
      toString a.worker.clock.frequency.toNat ++ " Hz"⟩]

end Pacing

namespace Moment

def turn? (a : Moment) : Option Worker :=
  match a.act with
  | .turn => some a.worker
  | _ => none

end Moment

/-- All that the workers do from the start of a machine to its stop, in the order in which they do
it. A stop waits until the turns that are due are made. -/
structure Schedule where
  moments : List Moment
  possible : ∃ p, Pacing.initial.run? moments = some p ∧ p.IsQuiet

namespace Schedule

end Schedule

/-! ### The machine -/

namespace Machine

def turnLines (m : Machine) : Worker → List LogLine
  | .instructions => if m.running then m.state.stepEvents.map Event.line else []
  | .timers => []

/-- Goes through the moments of a run, and appends to the log what the workers report. -/
def follow (m : Machine) (p : Pacing) (log : Array LogLine) :
    List Moment → Machine × Array LogLine
  | [] => (m, log)
  | a :: moments =>
    let next := (p.next? a).getD p
    let log := log ++ p.lines a
    match a.turn? with
    | none => m.follow next log moments
    | some worker => (m.turn worker).follow next (log ++ m.turnLines worker) moments

def runOn (m : Machine) (σ : Schedule) : Machine × List LogLine :=
  let ran := m.follow .initial #[] σ.moments
  (ran.1, ran.2.toList)

end Machine

/-! ### Machines at rest -/

namespace State

/-- A state that no cycle changes until a key is reported: a wait for a press or a jump to itself,
with both timers at zero. -/
def atRest (s : State) : Bool :=
  s.timers = .zero &&
    match s.turn with
    | .wait _ => true
    | .perform (.jump target) => target.toWord = s.pc
    | .perform (.jumpFrom base) => base.toWord + (s.reg .v0).toUInt16 = s.pc
    | _ => false

end State

namespace Machine

/-- Lets both cycles turn by turns until the machine is at rest, at most `bound` times. -/
def settle (m : Machine) : (bound : Nat) → Machine
  | 0 => m
  | bound + 1 =>
    if m.running = false || m.state.atRest then m
    else ((m.turn .instructions).turn .timers).settle bound

end Machine

end Chip8
