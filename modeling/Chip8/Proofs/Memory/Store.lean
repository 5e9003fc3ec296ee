import Chip8.Proofs.Memory.Load
import Chip8.Proofs.Memory.Ring
import Chip8.Proofs.State.Footprint

/-!
# Where memory is stored to

Two instructions store bytes, one after another from the index register on. Apart from that, memory
changes only where programs are loaded and where the glyphs lie.
-/

namespace Chip8

theorem Memory.get_writeList_of_ne {m : Memory} {w : Word} {bytes : List UInt8} {p : Address}
    (h : ∀ k < bytes.length, .wrap (w.toNat + k) ≠ p) :
    (m.writeList w bytes).get p = m.get p := by
  induction bytes generalizing m w with
  | nil => rfl
  | cons b bytes ih =>
      have hfirst : Address.wrap w.toNat ≠ p := h 0 (Nat.succ_pos _)
      have hrest : ∀ k < bytes.length, Address.wrap ((w + 1).toNat + k) ≠ p := by
        intro k hk
        have hplace : Address.wrap ((w + 1).toNat + k) = .wrap (w.toNat + (k + 1)) :=
          Word.wrap_add_ofNat w k 1
        rw [hplace]
        exact h (k + 1) (Nat.succ_lt_succ hk)
      rw [writeList, ih hrest, get_write, if_neg hfirst]

/-- The address lies between the glyphs and the programs. -/
def Address.Spare (p : Address) : Prop :=
  Glyph.size ≤ p.val ∧ p.val < programStart

instance (p : Address) : Decidable p.Spare :=
  inferInstanceAs (Decidable (_ ∧ _))

namespace State

/-- The bytes that the action stores, and the word from which on. -/
def storing (s : State) : Action → Word × List UInt8
  | .write w bytes => (w, bytes)
  | a => (s.i, ((s.performed? a).map s.storedBytes).getD [])

/-- The action stores a byte at the address. Loads and restored glyphs do not count. -/
def StoresAt (s : State) (a : Action) (p : Address) : Prop :=
  ∃ k < (s.storing a).2.length, .wrap ((s.storing a).1.toNat + k) = p

variable {s : State} {a : Action} {p : Address}

theorem memory_advance (s : State) (ins : Instruction) : (s.advance ins).memory = s.memory := by
  unfold advance
  split <;> rfl

theorem memory_step (s : State) :
    s.step.memory = s.memory.writeList (s.storing .step).1 (s.storing .step).2 := by
  have hstoring :
      s.storing .step = (s.i, ((s.performed? .step).map s.storedBytes).getD []) := rfl
  rw [hstoring]
  cases hins : s.performed? .step with
  | some ins => exact (footprint_of_performed? hins).memory
  | none => exact (step_of_not_performed? hins).1

theorem get_load_of_lt {program : List UInt8} (hp : p.val < programStart) :
    (s.apply (.load program)).memory.get p = s.memory.get p := by
  cases hload : s.load program with
  | error e => rw [apply, hload]
  | ok t =>
      obtain ⟨memory, hmemory, rfl⟩ := load_eq_ok.1 hload
      obtain ⟨-, -, rfl⟩ := Memory.load_eq_ok.1 hmemory
      rw [apply, hload]
      exact (Memory.get_replaceProgram program p).trans (if_pos hp)

/-- Below the programs and beyond the glyphs, memory changes only where an action stores. -/
theorem get_apply_of_spare (hp : p.Spare) (h : ¬ s.StoresAt a p) :
    (s.apply a).memory.get p = s.memory.get p := by
  have hne : ∀ k < (s.storing a).2.length, .wrap ((s.storing a).1.toNat + k) ≠ p := by
    intro k hk hwrap
    exact h ⟨k, hk, hwrap⟩
  have hglyphs (m : Memory) : m.restoreGlyphs.get p = m.get p := by
    rw [Memory.get_restoreGlyphs, if_neg (Nat.not_lt.2 hp.1)]
  cases a with
  | step => rw [apply, memory_step, Memory.get_writeList_of_ne hne]
  | execute ins =>
      rw [apply, (s.footprint_execute ins).memory]
      exact Memory.get_writeList_of_ne hne
  | advance ins => rw [apply, memory_advance]
  | load program => exact get_load_of_lt hp.2
  | reset => exact hglyphs s.memory
  | write w bytes => exact Memory.get_writeList_of_ne hne
  | restoreGlyphs => exact hglyphs s.memory
  | _ => rfl

end State

end Chip8
