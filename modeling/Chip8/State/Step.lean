import Chip8.Instruction.Decode
import Chip8.State.Execute

/-!
# The instruction cycle

A turn of the cycle depends on the state alone. While a register waits for a key press, a turn only
looks for a press; the counter was already moved past the instruction that started the wait.
Otherwise it performs the instruction at the counter, or passes over a word that is none.
-/

namespace Chip8

/-- What a turn of the instruction cycle does. -/
inductive Turn where
  /-- Waits, since no press has come. -/
  | wait (x : Register)
  /-- Takes a press for the register that waits. -/
  | receive (x : Register) (k : Key)
  | perform (ins : Instruction)
  | passOver (e : Unrecognized)
  deriving DecidableEq, Repr

namespace State

def current (s : State) : Except Unrecognized Instruction :=
  Instruction.ofWord s.word

def turn (s : State) : Turn :=
  match s.awaiting, s.keypad.pending, s.current with
  | some x, some k, _ => .receive x k
  | some x, none, _ => .wait x
  | none, _, .ok ins => .perform ins
  | none, _, .error e => .passOver e

def receive (s : State) (x : Register) (k : Key) : State :=
  { s.setReg x (UInt8.ofNat k.val) with awaiting := none, keypad := s.keypad.take }

def step (s : State) : State :=
  match s.turn with
  | .wait _ => s
  | .receive x k => s.receive x k
  | .perform ins => (s.execute ins).advance ins
  | .passOver _ => s.next

end State

end Chip8
