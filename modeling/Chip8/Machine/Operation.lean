import Chip8.Machine.Basic

/-!
# Operations on a machine

All that a client does to a machine, and the turns of its cycles between that, as one type, so that
a history is a list. An operation that fails changes nothing.
-/

namespace Chip8

namespace Machine

inductive Operation where
  | load (program : List UInt8)
  | loadFrom (source : Source)
  | setKey (k : Key) (isDown : Bool)
  | start
  | stop
  | reset
  /-- Looks at the screen. -/
  | snapshot
  | turn (worker : Worker)
  deriving DecidableEq, Repr

def apply (m : Machine) : Operation → Machine
  | .load program =>
    match m.load program with
    | .ok loaded => loaded
    | .error _ => m
  | .loadFrom source =>
    match m.loadFrom source with
    | .ok loaded => loaded
    | .error _ => m
  | .setKey k isDown => m.setKey k isDown
  | .start => m.start
  | .stop => m.stop
  | .reset =>
    match m.reset with
    | .ok fresh => fresh
    | .error _ => m
  | .snapshot => m
  | .turn worker => m.turn worker

def run (m : Machine) (history : List Operation) : Machine :=
  history.foldl apply m

@[simp] theorem run_nil (m : Machine) : m.run [] = m := rfl

@[simp] theorem run_cons (m : Machine) (a : Operation) (history : List Operation) :
    m.run (a :: history) = (m.apply a).run history := rfl

theorem run_append (m : Machine) (h₁ h₂ : List Operation) :
    m.run (h₁ ++ h₂) = (m.run h₁).run h₂ := by
  simp [run]

end Machine

end Chip8
