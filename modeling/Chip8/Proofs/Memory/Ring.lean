import Chip8.Memory

/-!
# Words that point at the same place

Memory is a ring, so words that differ by a multiple of its size point at the same byte. Nothing
that reads or writes memory can tell such words apart, and sums of words keep the relation.
-/

namespace Chip8

/-- The words are congruent modulo the size of memory. -/
def Word.SamePlace (a b : Word) : Prop :=
  a.toNat % memorySize = b.toNat % memorySize

instance (a b : Word) : Decidable (a.SamePlace b) :=
  inferInstanceAs (Decidable (_ = _))

theorem Word.wrap_add_ofNat (w : Word) (k n : Nat) :
    Address.wrap ((w + UInt16.ofNat n).toNat + k) = .wrap (w.toNat + (k + n)) := by
  ext
  simp only [Address.val_wrap, UInt16.toNat_add, UInt16.toNat_ofNat']
  omega

namespace Word.SamePlace

variable {a b : Word}

theorem refl (a : Word) : SamePlace a a := rfl

/-- Sums of words go round at `0x10000`, which is a multiple of the size of memory. -/
theorem add (h : SamePlace a b) (c : Word) : SamePlace (a + c) (b + c) := by
  simp only [SamePlace, memorySize, UInt16.toNat_add] at h ⊢
  omega

theorem wrap_add (h : SamePlace a b) (n : Nat) :
    Address.wrap (a.toNat + n) = .wrap (b.toNat + n) := by
  ext
  simp only [SamePlace, memorySize, Address.val_wrap] at h ⊢
  omega

theorem wrap (h : SamePlace a b) : Address.wrap a.toNat = .wrap b.toNat :=
  h.wrap_add 0

end Word.SamePlace

namespace Memory

variable {m : Memory} {a b : Word}

theorem read_congr (h : a.SamePlace b) : m.read a = m.read b := by
  rw [read, read, h.wrap]

theorem write_congr (h : a.SamePlace b) (c : UInt8) : m.write a c = m.write b c := by
  simp only [write, h.wrap]

theorem fetch_congr (h : a.SamePlace b) : m.fetch a = m.fetch b := by
  rw [fetch, fetch, read_congr h, read_congr (h.add 1)]

theorem readRange_congr (h : a.SamePlace b) (n : Nat) : m.readRange a n = m.readRange b n := by
  simp only [readRange, h.wrap_add]

theorem writeList_congr (h : a.SamePlace b) (bytes : List UInt8) :
    m.writeList a bytes = m.writeList b bytes := by
  induction bytes generalizing m a b with
  | nil => rfl
  | cons c bytes ih => rw [writeList, writeList, write_congr h, ih (h.add 1)]

end Memory

end Chip8
