import Chip8.Keypad
import Chip8.Memory
import Chip8.Random
import Chip8.Screen
import Chip8.Timers

/-!
# The state of a machine

Everything that instructions read and change. The counter, the index register and the return
addresses are words and may lie beyond memory, which is a ring.
-/

namespace Chip8

def stackDepth : Nat := 16

@[ext] structure State where
  memory : Memory
  screen : Screen
  keypad : Keypad
  v : Vector UInt8 16
  i : Word
  timers : Timers
  pc : Word
  /-- The stack pointer, which counts the return addresses up to 15. -/
  sp : UInt8
  /-- The return addresses, innermost first. -/
  frames : List Word
  /-- The register that waits for a key press. -/
  awaiting : Option Register
  rng : XorShift
  deriving DecidableEq

namespace State

def initial (rng : XorShift) : State where
  memory := .initial
  screen := .blank
  keypad := .released
  v := .replicate 16 0
  i := 0
  timers := .zero
  pc := UInt16.ofNat programStart
  sp := 0
  frames := []
  awaiting := none
  rng := rng

/-- Back to the initial state, except that the program stays in memory and the random words go
on where they were. -/
def reset (s : State) : State :=
  { initial s.rng with memory := s.memory.restoreGlyphs }

def load (s : State) (program : List UInt8) : Except Memory.LoadError State :=
  match s.memory.load program with
  | .ok memory => .ok { s with memory }
  | .error e => .error e

def reg (s : State) (x : Register) : UInt8 :=
  s.v[x.val]

def setReg (s : State) (x : Register) (b : UInt8) : State :=
  { s with v := s.v.set x.val b }

def setFlag (s : State) (flag : Bool) : State :=
  s.setReg .flag (if flag then 1 else 0)

def pointer (n : Nat) : UInt8 :=
  UInt8.ofNat (min n 15)

def setPointer (s : State) (b : UInt8) : State :=
  { s with sp := pointer b.toNat }

def setKey (s : State) (k : Key) (isDown : Bool) : State :=
  { s with keypad := s.keypad.set k isDown }

def tick (s : State) : State :=
  { s with timers := s.timers.tick }

def next (s : State) : State :=
  { s with pc := s.pc + 2 }

def word (s : State) : Word :=
  s.memory.fetch s.pc

variable {s : State}

theorem reg_setReg (x y : Register) (b : UInt8) :
    (s.setReg x b).reg y = if x = y then b else s.reg y := by
  simp only [reg, setReg, Vector.getElem_set, Fin.ext_iff]

@[simp] theorem reg_setReg_self (x : Register) (b : UInt8) : (s.setReg x b).reg x = b := by
  simp [reg_setReg]

end State

end Chip8
