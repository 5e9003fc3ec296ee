import Chip8.Word

/-!
# Glyphs of the hexadecimal digits

Every digit has a sprite of five rows. The sprites lie one after another at the start of memory.
-/

namespace Chip8.Glyph

def height : Nat := 5

def start : Nat := 0

def table : Vector (List UInt8) 16 :=
  #v[[0xF0, 0x90, 0x90, 0x90, 0xF0],
    [0x20, 0x60, 0x20, 0x20, 0x70],
    [0xF0, 0x10, 0xF0, 0x80, 0xF0],
    [0xF0, 0x10, 0xF0, 0x10, 0xF0],
    [0x90, 0x90, 0xF0, 0x10, 0x10],
    [0xF0, 0x80, 0xF0, 0x10, 0xF0],
    [0xF0, 0x80, 0xF0, 0x90, 0xF0],
    [0xF0, 0x10, 0x20, 0x40, 0x40],
    [0xF0, 0x90, 0xF0, 0x90, 0xF0],
    [0xF0, 0x90, 0xF0, 0x10, 0xF0],
    [0xF0, 0x90, 0xF0, 0x90, 0x90],
    [0xE0, 0x90, 0xE0, 0x90, 0xE0],
    [0xF0, 0x80, 0x80, 0x80, 0xF0],
    [0xE0, 0x90, 0x90, 0x90, 0xE0],
    [0xF0, 0x80, 0xF0, 0x80, 0xF0],
    [0xF0, 0x80, 0xF0, 0x80, 0x80]]

def rows (digit : Fin 16) : List UInt8 :=
  table[digit.val]

def bytes : List UInt8 :=
  table.toList.flatten

def size : Nat := 80

/-- Where the glyph of a number lies. Numbers above 15 share the last glyph. -/
def address (b : UInt8) : Word :=
  UInt16.ofNat (start + height * min b.toNat 15)

@[simp] theorem length_rows (digit : Fin 16) : (rows digit).length = height := by
  revert digit; decide

@[simp] theorem length_bytes : bytes.length = size := by decide

end Chip8.Glyph
