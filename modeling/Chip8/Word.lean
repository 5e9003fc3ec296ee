import Chip8.Text.Hex

/-!
# Words, addresses, registers and keys

A word is two bytes, the more significant first. Its nibbles, its low byte and its low twelve bits
are the fields that instructions are made of. An address is a place in the memory of 4096 bytes.
-/

namespace Chip8

abbrev Word := UInt16

abbrev Register := Fin 16

/-- The text of a register, as in `VA`. -/
def Register.text (x : Register) : String :=
  "V" ++ Hex.text 1 x.val

/-- The register that a jump with a base adds to it. -/
def Register.v0 : Register := 0

/-- The register that holds flags. -/
def Register.flag : Register := 15

/-- The register that the four low bits of a byte name. -/
def Register.ofByte (b : UInt8) : Register :=
  Fin.ofNat 16 b.toNat

abbrev Key := Fin 16

def Key.text (k : Key) : String :=
  "K" ++ Hex.text 1 k.val

/-- The key that the last hexadecimal digit of a number names. -/
def Key.ofNat (n : Nat) : Key :=
  Fin.ofNat 16 n

/-- The key that a byte names. Bytes above 15 name none. -/
def Key.ofByte? (b : UInt8) : Option Key :=
  if h : b.toNat < 16 then some ⟨b.toNat, h⟩ else none

abbrev Address := Fin 0x1000

/-- Addresses go round: the one after the last is the first. -/
def Address.wrap (n : Nat) : Address :=
  Fin.ofNat 0x1000 n

def Address.text (a : Address) : String :=
  "#" ++ Hex.text 3 a.val

def Address.toWord (a : Address) : Word :=
  UInt16.ofNat a.val

structure Address.OutOfBounds where
  value : Word
  deriving DecidableEq, Repr

def Address.OutOfBounds.message (e : OutOfBounds) : String :=
  "address out of bounds: 0x" ++ Hex.text 2 e.value.toNat

def Address.ofWord (w : Word) : Except Address.OutOfBounds Address :=
  if h : w.toNat < 0x1000 then .ok ⟨w.toNat, h⟩ else .error ⟨w⟩

@[simp] theorem Address.val_wrap (n : Nat) : (wrap n).val = n % 0x1000 := rfl

@[simp] theorem Address.wrap_val (a : Address) : wrap a.val = a := by
  ext; simp [Nat.mod_eq_of_lt a.isLt]

@[simp] theorem Address.toNat_toWord (a : Address) : a.toWord.toNat = a.val := by
  simp only [toWord, UInt16.toNat_ofNat']; omega

namespace Word

def ofBytes (high low : UInt8) : Word :=
  UInt16.ofNat (high.toNat * 0x100 + low.toNat)

def high (w : Word) : UInt8 :=
  UInt8.ofNat (w.toNat / 0x100)

def low (w : Word) : UInt8 :=
  UInt8.ofNat w.toNat

def family (w : Word) : Nat :=
  w.toNat / 0x1000

/-- The second nibble, a register in most instructions. -/
def x (w : Word) : Register :=
  Fin.ofNat 16 (w.toNat / 0x100)

def y (w : Word) : Register :=
  Fin.ofNat 16 (w.toNat / 0x10)

def nibble (w : Word) : Nat :=
  w.toNat % 0x10

def target (w : Word) : Address :=
  Address.wrap w.toNat

/-- The text of a word, as in `#00E0`. -/
def text (w : Word) : String :=
  "#" ++ Hex.text 4 w.toNat

/-- The text of a place in a message, as in `0x200`. -/
def placeText (w : Word) : String :=
  "0x" ++ Hex.text 3 w.toNat

@[simp] theorem toNat_ofBytes (high low : UInt8) :
    (ofBytes high low).toNat = high.toNat * 0x100 + low.toNat := by
  have := high.toNat_lt
  have := low.toNat_lt
  simp only [ofBytes, UInt16.toNat_ofNat']; omega

@[simp] theorem high_ofBytes (hi lo : UInt8) : high (ofBytes hi lo) = hi := by
  apply UInt8.toNat_inj.1
  have := hi.toNat_lt
  have := lo.toNat_lt
  simp only [high, toNat_ofBytes, UInt8.toNat_ofNat']; omega

@[simp] theorem low_ofBytes (hi lo : UInt8) : low (ofBytes hi lo) = lo := by
  apply UInt8.toNat_inj.1
  have := lo.toNat_lt
  simp only [low, toNat_ofBytes, UInt8.toNat_ofNat']; omega

@[simp] theorem ofBytes_high_low (w : Word) : ofBytes (high w) (low w) = w := by
  apply UInt16.toNat_inj.1
  have := w.toNat_lt
  simp only [toNat_ofBytes, high, low, UInt8.toNat_ofNat']; omega

end Word

end Chip8
