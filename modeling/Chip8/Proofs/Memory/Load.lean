import Chip8.State.Basic

/-!
# What a load leaves in memory

A load that succeeds puts the bytes of the program from `0x200` on into memory and zeros after them,
whatever was there before.
-/

namespace Chip8

namespace Memory

variable {m m' : Memory} {program : List UInt8}

theorem load_eq_ok :
    m.load program = .ok m' ↔
      program ≠ [] ∧ program.length ≤ programCapacity ∧ m.replaceProgram program = m' := by
  unfold load
  by_cases hempty : program = []
  · simp [hempty]
  by_cases hlarge : programCapacity < program.length
  · simp [hempty, hlarge, Nat.not_le.2 hlarge]
  · simp [hempty, hlarge, Nat.not_lt.1 hlarge]

theorem read_replaceProgram {n : Nat} (h : n < programCapacity) :
    (m.replaceProgram program).read (UInt16.ofNat (programStart + n)) = program.getD n 0 := by
  have hword : (UInt16.ofNat (programStart + n)).toNat = programStart + n := by
    simp only [programStart, programCapacity, UInt16.toNat_ofNat'] at h ⊢
    omega
  have hplace : (Address.wrap (programStart + n)).val = programStart + n := by
    simp only [programStart, programCapacity, Address.val_wrap] at h ⊢
    omega
  rw [read, get_replaceProgram, hword, hplace, if_neg (Nat.not_lt.2 (Nat.le_add_right _ _)),
    Nat.add_sub_cancel_left]

/-- The word at a place in the area of programs. A program that ends there has a zero after it. -/
theorem fetch_replaceProgram {n : Nat} (h : n + 1 < programCapacity) :
    (m.replaceProgram program).fetch (UInt16.ofNat (programStart + n)) =
      .ofBytes (program.getD n 0) (program.getD (n + 1) 0) := by
  have hnext : UInt16.ofNat (programStart + n) + 1 = UInt16.ofNat (programStart + (n + 1)) := by
    rw [← Nat.add_assoc, UInt16.ofNat_add (programStart + n) 1]
    rfl
  rw [fetch, hnext, read_replaceProgram (Nat.lt_of_succ_lt h), read_replaceProgram h]

end Memory

namespace State

variable {s t : State} {program : List UInt8}

theorem load_eq_ok :
    s.load program = .ok t ↔
      ∃ memory, s.memory.load program = .ok memory ∧ { s with memory } = t := by
  unfold load
  cases s.memory.load program with
  | error e => simp
  | ok memory => simp

theorem load_of_accepted (s : State) (hne : program ≠ [])
    (hle : program.length ≤ programCapacity) :
    s.load program = .ok { s with memory := s.memory.replaceProgram program } :=
  load_eq_ok.2 ⟨_, Memory.load_eq_ok.2 ⟨hne, hle, rfl⟩, rfl⟩

end State

end Chip8
