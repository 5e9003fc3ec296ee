import Chip8.Instruction.Assembly
import Chip8.Instruction.Decode
import Chip8.Memory

/-!
# The lines of a listing

A listing goes through a program word by word from the place where programs are loaded. A program of
odd length ends with a line for a single byte. The bytes of the lines, joined, are the program.
-/

namespace Chip8

namespace Listing

inductive Content where
  | word (w : Word)
  /-- The last byte of a program of odd length. -/
  | byte (b : UInt8)
  deriving DecidableEq, Repr

structure Line where
  address : Nat
  content : Content
  deriving DecidableEq, Repr

namespace Content

def bytes : Content → List UInt8
  | .word w => [w.high, w.low]
  | .byte b => [b]

/-- The word at the line. A single byte has the zero after it that memory holds there. -/
def toWord : Content → Word
  | .word w => w
  | .byte b => .ofBytes b 0

/-- The instruction of the line. A single byte is never one. -/
def instruction? : Content → Option Instruction
  | .word w => Instruction.ofWord? w
  | .byte _ => none

def text : Content → String
  | .word w =>
    match Instruction.ofWord? w with
    | some ins => ins.text
    | none => "DW " ++ w.text
  | .byte b => "DB #" ++ Hex.text 2 b.toNat

/-- The bytes of the line as a column of fixed width. -/
def column : Content → String
  | .word w => Hex.text 2 w.high.toNat ++ " " ++ Hex.text 2 w.low.toNat
  | .byte b => Hex.text 2 b.toNat ++ "   "

end Content

namespace Line

def instruction? (l : Line) : Option Instruction :=
  l.content.instruction?

def isCode (l : Line) : Bool :=
  l.instruction?.isSome

def size (l : Line) : Nat :=
  l.content.bytes.length

def text (l : Line) : String :=
  Hex.text 3 l.address ++ "  " ++ l.content.column ++ "  " ++ l.content.text

end Line

def sweep (address : Nat) : List UInt8 → List Line
  | [] => []
  | [b] => [⟨address, .byte b⟩]
  | b₁ :: b₂ :: bs => ⟨address, .word (.ofBytes b₁ b₂)⟩ :: sweep (address + 2) bs

def lines (program : List UInt8) : List Line :=
  sweep programStart program

theorem flatMap_bytes_sweep (address : Nat) (program : List UInt8) :
    (sweep address program).flatMap (fun l ↦ l.content.bytes) = program := by
  fun_induction sweep address program with
  | case1 => rfl
  | case2 => rfl
  | case3 address b₁ b₂ bs ih => rw [List.flatMap_cons, ih]; simp [Content.bytes]

end Listing

end Chip8
