import Chip8.State.Event

/-!
# Actions

All that can happen to a machine from outside and from inside, as one type, so that a history is a
list. A load that fails changes nothing.
-/

namespace Chip8

inductive Action where
  /-- A turn of the instruction cycle. -/
  | step
  /-- A turn of the timer cycle. -/
  | tick
  | execute (ins : Instruction)
  | advance (ins : Instruction)
  | load (program : List UInt8)
  | reset
  | setKey (k : Key) (isDown : Bool)
  | takePress
  | releaseKeys
  | setRegister (x : Register) (b : UInt8)
  | setIndex (w : Word)
  | setDelay (b : UInt8)
  | setSound (b : UInt8)
  | setPointer (b : UInt8)
  /-- Writes bytes to memory, starting at a word. -/
  | write (w : Word) (bytes : List UInt8)
  | restoreGlyphs
  | draw (sprite : List UInt8) (x y : Nat)
  | clearScreen
  deriving DecidableEq, Repr

namespace State

def apply (s : State) : Action → State
  | .step => s.step
  | .tick => s.tick
  | .execute ins => s.execute ins
  | .advance ins => s.advance ins
  | .load program =>
    match s.load program with
    | .ok loaded => loaded
    | .error _ => s
  | .reset => s.reset
  | .setKey k isDown => s.setKey k isDown
  | .takePress => { s with keypad := s.keypad.take }
  | .releaseKeys => { s with keypad := .released }
  | .setRegister x b => s.setReg x b
  | .setIndex w => { s with i := w }
  | .setDelay b => { s with timers := s.timers.setDelay b }
  | .setSound b => { s with timers := s.timers.setSound b }
  | .setPointer b => s.setPointer b
  | .write w bytes => { s with memory := s.memory.writeList w bytes }
  | .restoreGlyphs => { s with memory := s.memory.restoreGlyphs }
  | .draw sprite x y => { s with screen := (s.screen.draw sprite x y).1 }
  | .clearScreen => { s with screen := .blank }

def events (s : State) : Action → List Event
  | .step => s.stepEvents
  | .execute ins => s.executeEvents ins
  | _ => []

def run (s : State) (history : List Action) : State :=
  history.foldl apply s

@[simp] theorem run_nil (s : State) : s.run [] = s := rfl

@[simp] theorem run_cons (s : State) (a : Action) (history : List Action) :
    s.run (a :: history) = (s.apply a).run history := rfl

theorem run_append (s : State) (h₁ h₂ : List Action) : s.run (h₁ ++ h₂) = (s.run h₁).run h₂ := by
  simp [run]

end State

end Chip8
