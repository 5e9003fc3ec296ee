import Chip8.Proofs.History.Since
import Chip8.Proofs.Memory.Ring
import Mathlib.Data.List.Induction

/-!
# What memory holds after writes

Memory is the same ring for all who use it. A byte is what the last write at its place has left
there, whatever word the write went by, and it makes no difference whether bytes are read or stored
one by one or in a row, or read as a word.
-/

namespace Chip8

theorem Word.samePlace_iff_wrap_eq {a b : Word} :
    a.SamePlace b ↔ Address.wrap a.toNat = .wrap b.toNat := by
  rw [Fin.ext_iff]
  rfl

namespace Memory

/-- Writes bytes one after another, each where a word of its own points. -/
def writeAll (m : Memory) (writes : List (Word × UInt8)) : Memory :=
  writes.foldl (fun m w ↦ m.write w.1 w.2) m

/-- The bytes from a word on, each with the word that points at it. Words go round at their end. -/
def inRow (w : Word) (bytes : List UInt8) : List (Word × UInt8) :=
  bytes.zipIdx.map fun b ↦ (UInt16.ofNat (w.toNat + b.2), b.1)

/-- The last of the writes that fell on the place of `a` put the byte there. -/
def LastWritten (a : Word) (b : UInt8) : List (Word × UInt8) → Prop :=
  Since (fun _ w ↦ w.1.SamePlace a ∧ w.2 = b) fun _ w ↦ ¬ w.1.SamePlace a

variable {m : Memory} {writes : List (Word × UInt8)}

theorem writeAll_append (m : Memory) (writes later : List (Word × UInt8)) :
    m.writeAll (writes ++ later) = (m.writeAll writes).writeAll later :=
  List.foldl_append

theorem read_write (m : Memory) (w a : Word) (b : UInt8) :
    (m.write w b).read a = if w.SamePlace a then b else m.read a := by
  simp only [read, get_write, Word.samePlace_iff_wrap_eq]

/-- A byte comes from the last write at its place, or has been there from the beginning. -/
theorem read_writeAll (m : Memory) (writes : List (Word × UInt8)) (a : Word) (b : UInt8) :
    (m.writeAll writes).read a = b ↔
      LastWritten a b writes ∨ (∀ w ∈ writes, ¬ w.1.SamePlace a) ∧ m.read a = b := by
  induction writes using List.reverseRecOn with
  | nil => simp [writeAll, LastWritten]
  | append_singleton writes w ih =>
      have hlast : (m.writeAll (writes ++ [w])).read a =
          if w.1.SamePlace a then w.2 else (m.writeAll writes).read a := by
        rw [writeAll_append]
        exact read_write _ w.1 a w.2
      rw [hlast, LastWritten, since_concat, ← LastWritten, List.forall_mem_append,
        List.forall_mem_singleton]
      by_cases hplace : w.1.SamePlace a
      · -- The new write hides all earlier ones.
        simp [hplace]
      · rw [if_neg hplace, ih]
        simp [hplace]

theorem get_wrap_add (m : Memory) (a : Word) (i : Nat) :
    m.get (.wrap (a.toNat + i)) = m.read (UInt16.ofNat (a.toNat + i)) := by
  have hplace : Address.wrap (a.toNat + i) = .wrap (UInt16.ofNat (a.toNat + i)).toNat := by
    ext
    simp only [Address.val_wrap, UInt16.toNat_ofNat']
    omega
  rw [read, hplace]

theorem getElem?_readRange {a : Word} {n i : Nat} (h : i < n) :
    (m.readRange a n)[i]? = some (m.read (UInt16.ofNat (a.toNat + i))) := by
  rw [readRange, List.getElem?_map, List.getElem?_range h, Option.map_some, get_wrap_add]

/-- The two bytes of a word are read in a row. -/
theorem readRange_two (m : Memory) (a : Word) :
    m.readRange a 2 = [(m.fetch a).high, (m.fetch a).low] := by
  have hnext : UInt16.ofNat (a.toNat + 1) = a + 1 := by
    rw [UInt16.ofNat_add, UInt16.ofNat_toNat]
    rfl
  have hrange : List.range 2 = [0, 1] := rfl
  rw [readRange, hrange, List.map_cons, List.map_singleton, get_wrap_add, get_wrap_add, hnext,
    Nat.add_zero, UInt16.ofNat_toNat, fetch, Word.high_ofBytes, Word.low_ofBytes]

theorem inRow_cons (w : Word) (b : UInt8) (bytes : List UInt8) :
    inRow w (b :: bytes) = (w, b) :: inRow (w + 1) bytes := by
  have hnext (k : Nat) : UInt16.ofNat (w.toNat + (k + 1)) = UInt16.ofNat ((w + 1).toNat + k) := by
    apply UInt16.toNat_inj.1
    simp only [UInt16.toNat_ofNat', UInt16.toNat_add, UInt16.toNat_one]
    omega
  rw [inRow, inRow, List.zipIdx_cons', List.map_cons, List.map_map, Nat.add_zero,
    UInt16.ofNat_toNat]
  refine congrArg ((w, b) :: ·) (List.map_congr_left fun p _ ↦ ?_)
  exact congrArg (·, p.1) (hnext p.2)

theorem writeList_eq_writeAll (m : Memory) (w : Word) (bytes : List UInt8) :
    m.writeList w bytes = m.writeAll (inRow w bytes) := by
  induction bytes generalizing m w with
  | nil => rfl
  | cons b bytes ih =>
      rw [writeList, ih, inRow_cons]
      rfl

/-- After any writes, a byte is read if and only if the last write at its place put it there, or it
was there before and nothing was written at its place. A row of bytes of any length holds what is
read at its words one by one, and the two bytes at a word are the word. To store bytes in a row is
to write them one by one. -/
theorem ring_after_writes (m : Memory) (writes : List (Word × UInt8)) :
    let after := m.writeAll writes
    (∀ a b, after.read a = b ↔
      LastWritten a b writes ∨ (∀ w ∈ writes, ¬ w.1.SamePlace a) ∧ m.read a = b) ∧
      (∀ a n, (after.readRange a n).length = n ∧
        ∀ i < n, (after.readRange a n)[i]? = some (after.read (UInt16.ofNat (a.toNat + i)))) ∧
      (∀ a, after.readRange a 2 = [(after.fetch a).high, (after.fetch a).low]) ∧
      ∀ w bytes, after.writeList w bytes = m.writeAll (writes ++ inRow w bytes) := by
  intro after
  refine ⟨m.read_writeAll writes, ?_, after.readRange_two, ?_⟩
  · intro a n
    exact ⟨length_readRange a n, fun i hi ↦ getElem?_readRange hi⟩
  · intro w bytes
    rw [writeList_eq_writeAll, writeAll_append]

end Memory

end Chip8
