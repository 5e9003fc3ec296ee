import Chip8.Glyph

/-!
# Memory

A ring of 4096 bytes. Words that lie beyond the last address start again at the first one. The
glyphs fill the first 80 bytes, and a program is loaded at `0x200`.
-/

namespace Chip8

def memorySize : Nat := 0x1000

def programStart : Nat := 0x200

def programCapacity : Nat := 0xE00

@[ext] structure Memory where
  cells : Vector UInt8 0x1000
  deriving DecidableEq

namespace Memory

inductive LoadError where
  | empty
  | tooLarge (length : Nat)
  deriving DecidableEq, Repr

def LoadError.message : LoadError → String
  | .empty => "input program is empty"
  | .tooLarge n => "input program is too large (" ++ toString n ++ " bytes)"

def get (m : Memory) (a : Address) : UInt8 :=
  m.cells[a.val]

def read (m : Memory) (w : Word) : UInt8 :=
  m.get (.wrap w.toNat)

def write (m : Memory) (w : Word) (b : UInt8) : Memory :=
  ⟨m.cells.set (Address.wrap w.toNat).val b⟩

def writeList (m : Memory) (w : Word) : List UInt8 → Memory
  | [] => m
  | b :: bs => (m.write w b).writeList (w + 1) bs

def readRange (m : Memory) (w : Word) (n : Nat) : List UInt8 :=
  (List.range n).map fun i ↦ m.get (.wrap (w.toNat + i))

/-- The word at a place, its more significant byte first. -/
def fetch (m : Memory) (w : Word) : Word :=
  .ofBytes (m.read w) (m.read (w + 1))

def restoreGlyphs (m : Memory) : Memory :=
  ⟨.ofFn fun a ↦ if a.val < Glyph.size then Glyph.bytes.getD a.val 0 else m.get a⟩

/-- Replaces everything from `0x200` on by a program and zeros after it. -/
def replaceProgram (m : Memory) (program : List UInt8) : Memory :=
  let bytes := program.toArray
  ⟨.ofFn fun a ↦
    if a.val < programStart then m.get a else bytes.getD (a.val - programStart) 0⟩

def load (m : Memory) (program : List UInt8) : Except LoadError Memory :=
  if program = [] then .error .empty
  else if programCapacity < program.length then .error (.tooLarge program.length)
  else .ok (m.replaceProgram program)

def initial : Memory :=
  restoreGlyphs ⟨.replicate 0x1000 0⟩

variable {m : Memory}

@[simp] theorem get_write (w : Word) (b : UInt8) (a : Address) :
    (m.write w b).get a = if .wrap w.toNat = a then b else m.get a := by
  simp only [get, write, Vector.getElem_set, Fin.ext_iff]

@[simp] theorem get_restoreGlyphs (a : Address) :
    m.restoreGlyphs.get a =
      if a.val < Glyph.size then Glyph.bytes.getD a.val 0 else m.get a := by
  simp [get, restoreGlyphs]

@[simp] theorem get_replaceProgram (program : List UInt8) (a : Address) :
    (m.replaceProgram program).get a =
      if a.val < programStart then m.get a else program.getD (a.val - programStart) 0 := by
  simp [get, replaceProgram, List.getD, Array.getD_eq_getD_getElem?]

@[simp] theorem length_readRange (w : Word) (n : Nat) : (m.readRange w n).length = n := by
  simp [readRange]

theorem ext_get {m m' : Memory} (h : ∀ a, m.get a = m'.get a) : m = m' := by
  apply Memory.ext
  apply Vector.ext
  intro i hi
  exact h ⟨i, hi⟩

end Memory

end Chip8
