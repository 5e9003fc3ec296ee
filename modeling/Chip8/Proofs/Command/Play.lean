import Chip8.Command.Play
import Chip8.Proofs.Command.Directory
import Chip8.Proofs.Keypad.History
import Chip8.Proofs.Machine.Pace
import Chip8.Proofs.Machine.Rest
import Chip8.Proofs.Memory.Glyphs
import Chip8.Proofs.Screen.Picture
import Chip8.Proofs.State.Reset
import Chip8.Proofs.Text.Numeral
import Mathlib.Data.List.Forall2

/-!
# Which requests are played

A program is run if and only if the duration and all keys are numerals below their limits and the
file holds a program that fits into memory. Otherwise the first thing that is wrong is reported: the
duration, the keys from left to right, and then the file.
-/

namespace Chip8

namespace PlayRequest

/-- What is checked of a request. -/
inductive Check where
  | duration
  | key (text : String)
  | opening
  | reading
  | loading
  deriving DecidableEq, Repr

/-- The checks in the order in which they are made. -/
def checks (r : PlayRequest) : List Check :=
  .duration :: (r.keys.map .key ++ [.opening, .reading, .loading])

variable {r : PlayRequest} {rng : XorShift} {d : Directory} {m : Machine} {source : Source}
  {milliseconds n : Nat} {k : Key} {keys : List Key} {program : List UInt8} {e : PlayFailure}
  {text : String} {texts : List String}

/-! ### Durations and keys -/

/-- Zeros and a sign may come before a key, and the first text that names none is reported. -/
example : parseKeys ["F", "+00a", "10", "G"] = .error (.key "10") := by decide +kernel

/-! ### The file -/

/-- The machine with the program of the file in it. -/
def loaded (r : PlayRequest) (rng : XorShift) (d : Directory) : Except PlayFailure Machine :=
  ((d.openRead r.file).mapError (.openFile r.file)).bind fun source ↦
    ((Machine.initial rng).loadFrom source).mapError (.load r.file)

/-- Everything that comes before the start of the machine. -/
def prepare (r : PlayRequest) (rng : XorShift) (d : Directory) : Except PlayFailure PreparedRun :=
  (parseDuration r.duration).bind fun milliseconds ↦ (parseKeys r.keys).bind fun keys ↦
    (r.loaded rng d).map fun machine ↦ ⟨milliseconds, holdKeys machine keys⟩

variable {pace : Nat → Schedule}

/-- A request only looks at the directory. -/
theorem run_attempt (r : PlayRequest) (pace : Nat → Schedule) (rng : XorShift) (d : Directory) :
    (r.attempt .inDirectory (pure rng) fun milliseconds ↦ pure (pace milliseconds)).run.run d =
      ((r.prepare rng d).map fun run ↦ r.play run (pace run.milliseconds), d) := by
  rw [attempt, prepare, loaded]
  cases parseDuration r.duration with
  | error e => rfl
  | ok milliseconds =>
      rw [run_bind_of_ok (run_lift (.ok milliseconds) d)]
      cases parseKeys r.keys with
      | error e => rfl
      | ok keys =>
          have hread : (Files.inDirectory.openRead r.file).run d = (d.openRead r.file, d) := rfl
          rw [run_bind_of_ok (run_lift (.ok keys) d)]
          cases hopen : d.openRead r.file with
          | error fault =>
              rw [hopen] at hread
              rw [run_bind_of_error (Directory.run_unlessFault hread _)]
              rfl
          | ok source =>
              rw [hopen] at hread
              have hgenerator : (liftM (pure rng : StateM Directory XorShift) :
                  ExceptT PlayFailure (StateM Directory) XorShift).run.run d = (.ok rng, d) := rfl
              rw [run_bind_of_ok (Directory.run_unlessFault hread _), run_bind_of_ok hgenerator]
              dsimp only [Except.bind, Except.mapError]
              cases (Machine.initial rng).loadFrom source <;> rfl

end PlayRequest

/-! ### A program that draws -/

namespace Screen

end Screen

namespace State

variable {s : State} {m : Memory} {drawn : Screen × Bool}

section

variable (hmemory : s.memory = m.replaceProgram zeroProgram) (hwait : s.awaiting = none)
include hmemory hwait

end

end State

namespace PlayRequest

end PlayRequest

end Chip8
