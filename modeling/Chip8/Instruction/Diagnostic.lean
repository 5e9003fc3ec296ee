import Chip8.Instruction.Basic
import Chip8.Text.Record

/-!
# Diagnostic text of instructions

Every pattern of the instruction set has a name of its own here, also where patterns share a
mnemonic. Numbers are decimal.
-/

namespace Chip8

open Diagnostic (term)

def Address.diagnostic (a : Address) : String :=
  term "Address" [toString a.val]

/-- The name of the pattern that holds an operation on two registers. -/
def Alu.pattern : Alu → String
  | .load => "LdReg"
  | .or => "Or"
  | .and => "And"
  | .xor => "Xor"
  | .add => "AddReg"
  | .sub => "Sub"
  | .shiftRight => "Shr"
  | .subFrom => "Subn"
  | .shiftLeft => "Shl"

def Question.diagnostic : Question → String
  | .eqByte x b => term "SeByte" [x.text, toString b.toNat]
  | .neByte x b => term "SneByte" [x.text, toString b.toNat]
  | .eqRegister x y => term "SeReg" [x.text, y.text]
  | .neRegister x y => term "SneReg" [x.text, y.text]
  | .keyDown x => term "Skp" [x.text]
  | .keyUp x => term "Sknp" [x.text]

def Instruction.diagnostic : Instruction → String
  | .clearScreen => term "Cls" []
  | .ret => term "Ret" []
  | .jump a => term "Jp" [a.diagnostic]
  | .jumpFrom a => term "JpV0" [a.diagnostic]
  | .call a => term "Call" [a.diagnostic]
  | .skipIf q => q.diagnostic
  | .loadByte x b => term "LdByte" [x.text, toString b.toNat]
  | .addByte x b => term "AddByte" [x.text, toString b.toNat]
  | .alu op x y => term op.pattern [x.text, y.text]
  | .loadIndex a => term "LdI" [a.diagnostic]
  | .addIndex x => term "AddI" [x.text]
  | .random x b => term "Rnd" [x.text, toString b.toNat]
  | .draw x y n => term "Drw" [x.text, y.text, toString n.toNat]
  | .loadDelay x => term "LdRegDt" [x.text]
  | .setDelay x => term "LdDtReg" [x.text]
  | .setSound x => term "LdSt" [x.text]
  | .awaitKey x => term "LdKey" [x.text]
  | .pointAtGlyph x => term "LdF" [x.text]
  | .storeDecimal x => term "LdB" [x.text]
  | .storeRegisters x => term "LdDerefIReg" [x.text]
  | .loadRegisters x => term "LdRegDerefI" [x.text]

end Chip8
