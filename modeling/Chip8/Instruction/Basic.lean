import Chip8.Word

/-!
# Instructions

The instruction set, grouped by what an instruction does. A conditional skip carries the question
it asks, and an arithmetic instruction carries its operation.
-/

namespace Chip8

inductive Alu where
  | load
  | or
  | and
  | xor
  | add
  | sub
  /-- Shifts the first operand to the right and leaves the second one out. -/
  | shiftRight
  /-- The second operand less the first one. -/
  | subFrom
  /-- Shifts the first operand to the left and leaves the second one out. -/
  | shiftLeft
  deriving DecidableEq, Repr

/-- What a conditional skip asks. -/
inductive Question where
  | eqByte (x : Register) (b : UInt8)
  | neByte (x : Register) (b : UInt8)
  | eqRegister (x y : Register)
  | neRegister (x y : Register)
  /-- Whether the key whose number is in the register is down. -/
  | keyDown (x : Register)
  | keyUp (x : Register)
  deriving DecidableEq, Repr

inductive Instruction where
  | clearScreen
  | ret
  | jump (target : Address)
  /-- Jumps to the base plus the content of `V0`. -/
  | jumpFrom (base : Address)
  | call (target : Address)
  /-- Leaves out the next instruction if the answer is yes. -/
  | skipIf (question : Question)
  | loadByte (x : Register) (b : UInt8)
  /-- Adds without touching the flag. -/
  | addByte (x : Register) (b : UInt8)
  | alu (op : Alu) (x y : Register)
  | loadIndex (target : Address)
  | addIndex (x : Register)
  | random (x : Register) (mask : UInt8)
  /-- Draws `height` bytes at `I` as a sprite whose corner is in the two registers. -/
  | draw (x y : Register) (height : UInt8)
  | loadDelay (x : Register)
  | setDelay (x : Register)
  | setSound (x : Register)
  | awaitKey (x : Register)
  | pointAtGlyph (x : Register)
  /-- Stores the three decimal digits of the register at `I`. -/
  | storeDecimal (x : Register)
  /-- Stores the registers up to `x` at `I`. -/
  | storeRegisters (x : Register)
  | loadRegisters (x : Register)
  deriving DecidableEq, Repr

/-- Whether the instruction sets the program counter itself, so that nothing has to be added
afterwards. -/
def Instruction.setsCounter : Instruction → Bool
  | .ret | .jump _ | .jumpFrom _ | .call _ => true
  | _ => false

end Chip8
