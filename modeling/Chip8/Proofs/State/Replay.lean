import Chip8.Proofs.Random.Stream
import Chip8.Proofs.State.Reset

/-!
# A reset after a run

A run that starts right after a load can change anything, and a reset takes it all back but for two
things: the bytes beyond the glyphs and the random words. If these are as they were, the machine is
as it was before the run, and the same run takes it through the same states again.
-/

namespace Chip8

namespace State

variable {s : State} {program : List UInt8} {rng : XorShift}

/-- A reset gives a newly loaded machine back, up to the random words, if it finds the memory of
that one beyond the glyphs. -/
theorem reset_eq_loaded_iff (h : (initial rng).load program = .ok s) (t : State) :
    { t.reset with rng := s.rng } = s ↔
      ∀ p : Address, Glyph.size ≤ p.val → t.memory.get p = s.memory.get p := by
  obtain ⟨memory, hmemory, rfl⟩ := load_eq_ok.1 h
  obtain ⟨-, -, rfl⟩ := Memory.load_eq_ok.1 hmemory
  exact (reset_eq_iff t rng _).trans
    (Memory.restoreGlyphs_eq_iff (Memory.restoreGlyphs_replaceProgram_initial program))

theorem eq_of_rng_eq {t : State} (hrng : t.rng = s.rng) (h : { t with rng := s.rng } = s) :
    t = s := by
  rw [← hrng] at h
  exact h

/-- A reset after a run takes a newly loaded machine back to where the run started, up to the random
words, if and only if the run left the bytes beyond the glyphs as they were. If it also took no
random byte, the reset brings back the whole state, and the run can be repeated: after every part of
it the machine is in the same state as the first time. -/
theorem reset_replays_run (rng : XorShift) (program : List UInt8) (s : State)
    (hload : (initial rng).load program = .ok s) (history : List Action) :
    ({ (s.run history).reset with rng := s.rng } = s ↔
        ∀ p : Address, 0x50 ≤ p.val → (s.run history).memory.get p = s.memory.get p) ∧
      ((∀ p : Address, 0x50 ≤ p.val → (s.run history).memory.get p = s.memory.get p) →
        s.collect random? history = [] →
          (s.run history).reset = s ∧
            ∀ part, part <+: history → (s.run history).reset.run part = s.run part) := by
  have hiff := reset_eq_loaded_iff hload (s.run history)
  refine ⟨hiff, ?_⟩
  intro hbytes hrandom
  have hback : (s.run history).reset = s := by
    refine eq_of_rng_eq ?_ (hiff.2 hbytes)
    rw [rng_reset, rng_run_of_no_random hrandom]
  refine ⟨hback, ?_⟩
  intro part _
  rw [hback]

/-- The program stores a byte over the first glyph, a key goes down in between, and all that is gone
after the reset. -/
theorem reset_replays_run_over_glyphs :
    let program : List UInt8 := [0x60, 0x2A, 0xA0, 0x00, 0xF0, 0x55]
    let history : List Action := [.step, .step, .setKey (Key.ofNat 5) true, .step, .tick]
    ∃ s, (initial .fixed).load program = .ok s ∧
      (s.run history).memory.get (.wrap 0) = 0x2A ∧
        (s.run history).keypad.pending = some (.ofNat 5) ∧
        (s.run history).reset = s ∧
          (s.run history).reset.run (history.take 4) = s.run (history.take 4) := by
  intro program history
  -- The memory stays a variable here, so that nothing evaluates all of it.
  have hrun (m : Memory) (hfetch : ∀ n, n + 1 < programCapacity →
      m.fetch (UInt16.ofNat (programStart + n)) =
        .ofBytes (program.getD n 0) (program.getD (n + 1) 0)) :
      let s : State := { initial .fixed with memory := m }
      (s.run history).memory = m.writeList 0 [0x2A] ∧
        (s.run history).keypad.pending = some (.ofNat 5) ∧ s.collect random? history = [] := by
    have hword₀ : m.fetch 0x200 = 0x602A := (hfetch 0 (by decide)).trans (by decide)
    have hword₁ : m.fetch 0x202 = 0xA000 := (hfetch 2 (by decide)).trans (by decide)
    have hword₂ : m.fetch 0x204 = 0xF055 := (hfetch 4 (by decide)).trans (by decide)
    intro s
    let s₁ := (s.execute (.loadByte .v0 0x2A)).advance (.loadByte .v0 0x2A)
    let s₂ := (s₁.execute (.loadIndex (.wrap 0))).advance (.loadIndex (.wrap 0))
    let s₃ := s₂.setKey (.ofNat 5) true
    let s₄ := (s₃.execute (.storeRegisters .v0)).advance (.storeRegisters .v0)
    have hturn₀ : s.turn = .perform (.loadByte .v0 0x2A) :=
      turn_of_current rfl (congrArg Instruction.ofWord hword₀)
    have hturn₁ : s₁.turn = .perform (.loadIndex (.wrap 0)) :=
      turn_of_current rfl (congrArg Instruction.ofWord hword₁)
    have hturn₃ : s₃.turn = .perform (.storeRegisters .v0) :=
      turn_of_current rfl (congrArg Instruction.ofWord hword₂)
    have hstep₀ : s.apply .step = s₁ := step_of_turn_perform hturn₀
    have hstep₁ : s₁.apply .step = s₂ := step_of_turn_perform hturn₁
    have hpress : s₂.apply (.setKey (.ofNat 5) true) = s₃ := rfl
    have hstep₃ : s₃.apply .step = s₄ := step_of_turn_perform hturn₃
    have hhistory : s.run history = s₄.tick := by
      rw [run_cons, hstep₀, run_cons, hstep₁, run_cons, hpress, run_cons, hstep₃, run_cons, run_nil]
      rfl
    refine ⟨?_, ?_, ?_⟩
    · rw [hhistory]
      exact (memory_advance _ _).trans (s₃.footprint_execute _).memory
    · rw [hhistory]
      rfl
    · rw [collect_cons, random?_of_turn hturn₀, hstep₀, collect_cons, random?_of_turn hturn₁,
        hstep₁, collect_cons, hpress, collect_cons, random?_of_turn hturn₃]
      rfl
  have hload := (initial .fixed).load_of_accepted (show program ≠ [] by decide) (by decide)
  obtain ⟨hmemory, hpending, hrandom⟩ :=
    hrun ((initial .fixed).memory.replaceProgram program) fun n hn ↦ Memory.fetch_replaceProgram hn
  have hbyte (m : Memory) : (m.writeList 0 [0x2A]).get (.wrap 0) = 0x2A := by
    rw [Memory.writeList, Memory.writeList, Memory.get_write]
    exact if_pos rfl
  have hbeyond (m : Memory) (p : Address) (hp : 0x50 ≤ p.val) :
      (m.writeList 0 [0x2A]).get p = m.get p := by
    refine Memory.get_writeList_of_ne fun k hk hplace ↦ ?_
    obtain rfl : k = 0 := Nat.lt_one_iff.1 hk
    rw [← hplace] at hp
    exact absurd hp (by decide)
  obtain ⟨hback, hagain⟩ := (reset_replays_run .fixed program _ hload history).2
    (by rw [hmemory]; exact hbeyond _) hrandom
  refine ⟨_, hload, ?_, hpending, hback, hagain _ (List.take_prefix _ _)⟩
  rw [hmemory, hbyte]

end State

end Chip8
