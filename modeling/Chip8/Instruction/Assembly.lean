import Chip8.Instruction.Basic

/-!
# Assembly text

An instruction is written as its mnemonic and its operands. Several instructions share a mnemonic
and are told apart by their operands.
-/

namespace Chip8

inductive Mnemonic where
  | cls | ret | jp | call | se | sne | ld | add | or | and | xor | sub | shr | subn | shl | rnd
  | drw | skp | sknp
  deriving DecidableEq, Repr

def Mnemonic.text : Mnemonic → String
  | .cls => "CLS"
  | .ret => "RET"
  | .jp => "JP"
  | .call => "CALL"
  | .se => "SE"
  | .sne => "SNE"
  | .ld => "LD"
  | .add => "ADD"
  | .or => "OR"
  | .and => "AND"
  | .xor => "XOR"
  | .sub => "SUB"
  | .shr => "SHR"
  | .subn => "SUBN"
  | .shl => "SHL"
  | .rnd => "RND"
  | .drw => "DRW"
  | .skp => "SKP"
  | .sknp => "SKNP"

inductive Operand where
  | register (x : Register)
  | immediate (b : UInt8)
  | address (a : Address)
  | height (n : UInt8)
  | index
  /-- The memory that `I` points at. -/
  | indirect
  | delay
  | sound
  | key
  | glyph
  | decimal
  deriving DecidableEq, Repr

namespace Operand

def text : Operand → String
  | .register x => x.text
  | .immediate b => "#" ++ Hex.text 2 b.toNat
  | .address a => a.text
  | .height n => toString n.toNat
  | .index => "I"
  | .indirect => "[I]"
  | .delay => "DT"
  | .sound => "ST"
  | .key => "K"
  | .glyph => "F"
  | .decimal => "B"

/-- The number in the operand. Operands with a fixed spelling hold zero. -/
def value : Operand → Nat
  | .register x => x.val
  | .immediate b => b.toNat
  | .address a => a.val
  | .height n => n.toNat
  | _ => 0

end Operand

def Alu.mnemonic : Alu → Mnemonic
  | .load => .ld
  | .or => .or
  | .and => .and
  | .xor => .xor
  | .add => .add
  | .sub => .sub
  | .shiftRight => .shr
  | .subFrom => .subn
  | .shiftLeft => .shl

def Question.mnemonic : Question → Mnemonic
  | .eqByte _ _ | .eqRegister _ _ => .se
  | .neByte _ _ | .neRegister _ _ => .sne
  | .keyDown _ => .skp
  | .keyUp _ => .sknp

def Question.operands : Question → List Operand
  | .eqByte x b | .neByte x b => [.register x, .immediate b]
  | .eqRegister x y | .neRegister x y => [.register x, .register y]
  | .keyDown x | .keyUp x => [.register x]

namespace Instruction

def mnemonic : Instruction → Mnemonic
  | .clearScreen => .cls
  | .ret => .ret
  | .jump _ | .jumpFrom _ => .jp
  | .call _ => .call
  | .skipIf q => q.mnemonic
  | .addByte _ _ | .addIndex _ => .add
  | .alu op _ _ => op.mnemonic
  | .random _ _ => .rnd
  | .draw _ _ _ => .drw
  | .loadByte _ _ | .loadIndex _ | .loadDelay _ | .setDelay _ | .setSound _ | .awaitKey _
  | .pointAtGlyph _ | .storeDecimal _ | .storeRegisters _ | .loadRegisters _ => .ld

def operands : Instruction → List Operand
  | .clearScreen | .ret => []
  | .jump a | .call a => [.address a]
  | .jumpFrom a => [.register .v0, .address a]
  | .skipIf q => q.operands
  | .loadByte x b | .addByte x b | .random x b => [.register x, .immediate b]
  | .alu _ x y => [.register x, .register y]
  | .loadIndex a => [.index, .address a]
  | .addIndex x => [.index, .register x]
  | .draw x y n => [.register x, .register y, .height n]
  | .loadDelay x => [.register x, .delay]
  | .setDelay x => [.delay, .register x]
  | .setSound x => [.sound, .register x]
  | .awaitKey x => [.register x, .key]
  | .pointAtGlyph x => [.glyph, .register x]
  | .storeDecimal x => [.decimal, .register x]
  | .storeRegisters x => [.indirect, .register x]
  | .loadRegisters x => [.register x, .indirect]

def text (ins : Instruction) : String :=
  match ins.operands with
  | [] => ins.mnemonic.text
  | ops => ins.mnemonic.text ++ " " ++ ", ".intercalate (ops.map Operand.text)

end Instruction

end Chip8
