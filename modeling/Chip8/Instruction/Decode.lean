import Chip8.Instruction.Basic

/-!
# Decoding words

The most significant nibble names the family of a word. Some families ignore further bits: the
second nibble of `0xE0` and `0xEE`, and the last nibble of `5xy_` and `9xy_`.
-/

namespace Chip8

/-- The operation that the last nibble of an `8xy_` word names. -/
def Alu.ofNibble? : Nat → Option Alu
  | 0x0 => some .load
  | 0x1 => some .or
  | 0x2 => some .and
  | 0x3 => some .xor
  | 0x4 => some .add
  | 0x5 => some .sub
  | 0x6 => some .shiftRight
  | 0x7 => some .subFrom
  | 0xE => some .shiftLeft
  | _ => none

structure Unrecognized where
  word : Word
  deriving DecidableEq, Repr

def Unrecognized.message (e : Unrecognized) : String :=
  "unrecognized opcode: " ++ e.word.text

namespace Instruction

/-- The instruction of family `0` with the given low byte. -/
def system? : Nat → Option Instruction
  | 0xE0 => some .clearScreen
  | 0xEE => some .ret
  | _ => none

/-- The skip of family `E` with the given low byte. -/
def keySkip? (x : Register) : Nat → Option Instruction
  | 0x9E => some (.skipIf (.keyDown x))
  | 0xA1 => some (.skipIf (.keyUp x))
  | _ => none

/-- The instruction of family `F` with the given low byte. -/
def transfer? (x : Register) : Nat → Option Instruction
  | 0x07 => some (.loadDelay x)
  | 0x0A => some (.awaitKey x)
  | 0x15 => some (.setDelay x)
  | 0x18 => some (.setSound x)
  | 0x1E => some (.addIndex x)
  | 0x29 => some (.pointAtGlyph x)
  | 0x33 => some (.storeDecimal x)
  | 0x55 => some (.storeRegisters x)
  | 0x65 => some (.loadRegisters x)
  | _ => none

def ofWord? (w : Word) : Option Instruction :=
  match w.family with
  | 0x0 => system? w.low.toNat
  | 0x1 => some (.jump w.target)
  | 0x2 => some (.call w.target)
  | 0x3 => some (.skipIf (.eqByte w.x w.low))
  | 0x4 => some (.skipIf (.neByte w.x w.low))
  | 0x5 => some (.skipIf (.eqRegister w.x w.y))
  | 0x6 => some (.loadByte w.x w.low)
  | 0x7 => some (.addByte w.x w.low)
  | 0x8 => (Alu.ofNibble? w.nibble).map fun op ↦ .alu op w.x w.y
  | 0x9 => some (.skipIf (.neRegister w.x w.y))
  | 0xA => some (.loadIndex w.target)
  | 0xB => some (.jumpFrom w.target)
  | 0xC => some (.random w.x w.low)
  | 0xD => some (.draw w.x w.y (UInt8.ofNat w.nibble))
  | 0xE => keySkip? w.x w.low.toNat
  | _ => transfer? w.x w.low.toNat

def ofWord (w : Word) : Except Unrecognized Instruction :=
  match ofWord? w with
  | some ins => .ok ins
  | none => .error ⟨w⟩

end Instruction

end Chip8
