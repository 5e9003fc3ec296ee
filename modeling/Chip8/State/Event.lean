import Chip8.Instruction.Assembly
import Chip8.Log
import Chip8.State.Step

/-!
# What a turn reports

Turns of the instruction cycle and single instructions report what they meet. A report depends on
the state before the turn, so it does not have to be part of the state.
-/

namespace Chip8

inductive Event where
  | performing (pc : Word) (ins : Instruction)
  | passedOver (pc : Word) (e : Unrecognized)
  /-- A call met a full stack. -/
  | stackOverflow (pc : Word)
  /-- A return met an empty stack. -/
  | emptyReturn (pc : Word)
  | awaitingKey (x : Register)
  | receivedKey (x : Register) (k : Key)
  deriving DecidableEq, Repr

def Event.line : Event → LogLine
  | .performing pc ins => ⟨.trace, pc.placeText ++ ": " ++ ins.text⟩
  | .passedOver pc e =>
    ⟨.warning, e.message ++ " at address " ++ pc.placeText ++ "; skipping it"⟩
  | .stackOverflow pc => ⟨.warning, "call stack overflow at " ++ pc.placeText⟩
  | .emptyReturn pc => ⟨.warning, "no subroutine to return from at " ++ pc.placeText⟩
  | .awaitingKey x => ⟨.debug, "waiting for a key press for " ++ Register.text x⟩
  | .receivedKey x k => ⟨.debug, "got key " ++ Key.text k ++ " for " ++ Register.text x⟩

namespace State

def executeEvents (s : State) : Instruction → List Event
  | .call _ => if s.frames.length < stackDepth then [] else [.stackOverflow s.pc]
  | .ret => if s.frames = [] then [.emptyReturn s.pc] else []
  | .awaitKey x => [.awaitingKey x]
  | _ => []

def stepEvents (s : State) : List Event :=
  match s.turn with
  | .wait _ => []
  | .receive x k => [.receivedKey x k]
  | .perform ins => .performing s.pc ins :: s.executeEvents ins
  | .passOver e => [.passedOver s.pc e]

end State

end Chip8
