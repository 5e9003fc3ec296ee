import Chip8.Instruction.Basic
import Chip8.State.Basic

/-!
# Executing instructions

An instruction never fails: sums go round, places in memory go round, and a full or an empty stack
is dealt with. The flag is written after the result, so an operation on `VF` leaves the flag there.
-/

namespace Chip8

namespace Alu

def result : Alu → (a b : UInt8) → UInt8
  | .load, _, b => b
  | .or, a, b => a ||| b
  | .and, a, b => a &&& b
  | .xor, a, b => a ^^^ b
  | .add, a, b => a + b
  | .sub, a, b => a - b
  | .shiftRight, a, _ => a >>> 1
  | .subFrom, a, b => b - a
  | .shiftLeft, a, _ => a <<< 1

def flag? : Alu → (a b : UInt8) → Option Bool
  | .add, a, b => some (255 < a.toNat + b.toNat)
  | .sub, a, b => some (b < a)
  | .shiftRight, a, _ => some (a.toNat % 2 = 1)
  | .subFrom, a, b => some (a < b)
  | .shiftLeft, a, _ => some (128 ≤ a.toNat)
  | _, _, _ => none

end Alu

namespace State

def answer (s : State) : Question → Bool
  | .eqByte x b => s.reg x = b
  | .neByte x b => s.reg x ≠ b
  | .eqRegister x y => s.reg x = s.reg y
  | .neRegister x y => s.reg x ≠ s.reg y
  | .keyDown x => s.keypad.isDownByte (s.reg x)
  | .keyUp x => !s.keypad.isDownByte (s.reg x)

/-- Puts the result of an operation into `x`, and then its flag into `VF`. -/
def compute (s : State) (op : Alu) (x y : Register) : State :=
  let a := s.reg x
  let b := s.reg y
  let s := s.setReg x (op.result a b)
  match op.flag? a b with
  | some flag => s.setFlag flag
  | none => s

/-- Keeps the address of the next word and jumps. A full stack gives up its innermost return
address for the new one. -/
def call (s : State) (target : Address) : State :=
  let kept := if s.frames.length < stackDepth then s.frames else s.frames.tail
  let frames := (s.pc + 2) :: kept
  { s with frames, sp := pointer frames.length, pc := target.toWord }

/-- Goes back to the innermost return address, or on to the next word if there is none. -/
def ret (s : State) : State :=
  match s.frames with
  | [] => s.next
  | frame :: frames => { s with frames, sp := pointer frames.length, pc := frame }

/-- Draws the sprite at `I` and leaves the collision in `VF`. -/
def draw (s : State) (x y : Register) (height : UInt8) : State :=
  let sprite := s.memory.readRange s.i height.toNat
  let drawn := s.screen.draw sprite (s.reg x).toNat (s.reg y).toNat
  { s with screen := drawn.1 }.setFlag drawn.2

def decimalDigits (b : UInt8) : List UInt8 :=
  [b / 100, b % 100 / 10, b % 10]

def store (s : State) (bytes : List UInt8) : State :=
  { s with memory := s.memory.writeList s.i bytes }

def loadRegisters (s : State) (x : Register) : State :=
  { s with
    v := .ofFn fun r ↦
      if r ≤ x then s.memory.read (s.i + UInt16.ofNat r.val) else s.reg r }

/-- The effect of an instruction, before the program counter moves on. -/
def execute (s : State) : Instruction → State
  | .clearScreen => { s with screen := .blank }
  | .ret => s.ret
  | .jump target => { s with pc := target.toWord }
  | .jumpFrom base => { s with pc := base.toWord + (s.reg .v0).toUInt16 }
  | .call target => s.call target
  | .skipIf question => if s.answer question then s.next else s
  | .loadByte x b => s.setReg x b
  | .addByte x b => s.setReg x (s.reg x + b)
  | .alu op x y => s.compute op x y
  | .loadIndex target => { s with i := target.toWord }
  | .addIndex x => { s with i := s.i + (s.reg x).toUInt16 }
  | .random x mask => { s.setReg x (s.rng.nextByte &&& mask) with rng := s.rng.next }
  | .draw x y height => s.draw x y height
  | .loadDelay x => s.setReg x s.timers.delay
  | .setDelay x => { s with timers := s.timers.setDelay (s.reg x) }
  | .setSound x => { s with timers := s.timers.setSound (s.reg x) }
  | .awaitKey x => { s with awaiting := some x }
  | .pointAtGlyph x => { s with i := Glyph.address (s.reg x) }
  | .storeDecimal x => s.store (decimalDigits (s.reg x))
  | .storeRegisters x => s.store (s.v.toList.take (x.val + 1))
  | .loadRegisters x => s.loadRegisters x

/-- Moves on past an instruction that has been executed, unless it set the counter itself. -/
def advance (s : State) (ins : Instruction) : State :=
  if ins.setsCounter then s else s.next

end State

end Chip8
