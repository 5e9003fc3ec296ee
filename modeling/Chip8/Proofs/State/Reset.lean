import Chip8.Proofs.Memory.Store
import Chip8.Proofs.State.Trace

/-!
# What a load and a reset leave behind

A load replaces the programs and a reset the glyphs and everything outside memory. The bytes between
the glyphs and the programs are left as they are, so what an earlier program stored there stays.
-/

namespace Chip8

namespace Memory

variable {m m' : Memory} {program : List UInt8}

theorem get_initial_of_spare {p : Address} (hp : p.Spare) : initial.get p = 0 := by
  have hblank : (⟨.replicate 0x1000 0⟩ : Memory).get p = 0 := Vector.getElem_replicate p.isLt
  rw [initial, get_restoreGlyphs, if_neg (Nat.not_lt.2 hp.1), hblank]

/-- Once the glyphs are back, a new program looks as in a new memory but for the spare bytes. -/
theorem get_restoreGlyphs_replaceProgram (p : Address) :
    (m.replaceProgram program).restoreGlyphs.get p =
      if p.Spare then m.get p else (initial.replaceProgram program).get p := by
  simp only [initial, get_restoreGlyphs, get_replaceProgram]
  by_cases hglyph : p.val < Glyph.size
  · have hlow : p.val < programStart := Nat.lt_trans hglyph (by decide)
    have hspare : ¬ p.Spare := fun h ↦ Nat.not_lt.2 h.1 hglyph
    rw [if_pos hglyph, if_neg hspare, if_pos hlow, if_pos hglyph]
  · by_cases hlow : p.val < programStart
    · have hspare : p.Spare := ⟨Nat.not_lt.1 hglyph, hlow⟩
      rw [if_neg hglyph, if_pos hlow, if_pos hspare]
    · have hspare : ¬ p.Spare := fun h ↦ hlow h.2
      rw [if_neg hglyph, if_neg hlow, if_neg hspare, if_neg hlow]

/-- Restored glyphs make two memories equal if they agree beyond the glyphs and the second one has
its glyphs in place. -/
theorem restoreGlyphs_eq_iff (h : m'.restoreGlyphs = m') :
    m.restoreGlyphs = m' ↔ ∀ p : Address, Glyph.size ≤ p.val → m.get p = m'.get p := by
  constructor
  · rintro rfl p hp
    rw [get_restoreGlyphs, if_neg (Nat.not_lt.2 hp)]
  · intro hbeyond
    refine ext_get fun p ↦ ?_
    by_cases hp : p.val < Glyph.size
    · rw [← h, get_restoreGlyphs, get_restoreGlyphs, if_pos hp, if_pos hp]
    · rw [get_restoreGlyphs, if_neg hp, hbeyond p (Nat.not_lt.1 hp)]

theorem restoreGlyphs_replaceProgram_initial (program : List UInt8) :
    (initial.replaceProgram program).restoreGlyphs = initial.replaceProgram program := by
  refine ext_get fun p ↦ ?_
  rw [get_restoreGlyphs]
  split
  · next hp =>
    have hlow : p.val < programStart := Nat.lt_trans hp (by decide)
    rw [get_replaceProgram, if_pos hlow, initial, get_restoreGlyphs, if_pos hp]
  · rfl

theorem restoreGlyphs_replaceProgram_eq_iff :
    (m.replaceProgram program).restoreGlyphs = initial.replaceProgram program ↔
      ∀ p : Address, p.Spare → m.get p = 0 := by
  rw [restoreGlyphs_eq_iff (restoreGlyphs_replaceProgram_initial program)]
  constructor
  · intro h p hp
    have hsame := h p hp.1
    rwa [get_replaceProgram, get_replaceProgram, if_pos hp.2, if_pos hp.2,
      get_initial_of_spare hp] at hsame
  · intro h p hp
    rw [get_replaceProgram, get_replaceProgram]
    split
    · next hlow => rw [h p ⟨hp, hlow⟩, get_initial_of_spare ⟨hp, hlow⟩]
    · rfl

end Memory

namespace State

variable {s : State} {history : List Action} {program : List UInt8}

theorem get_run_of_spare {p : Address} (hp : p.Spare)
    (h : ∀ e ∈ s.trace history, ¬ e.1.StoresAt e.2 p) :
    (s.run history).memory.get p = s.memory.get p := by
  induction history generalizing s with
  | nil => rfl
  | cons a history ih =>
      rw [trace, List.forall_mem_cons] at h
      rw [run_cons, ih h.2, get_apply_of_spare hp h.1]

/-- A reset takes back everything but memory beyond the glyphs and the random words. -/
theorem reset_eq_iff (s : State) (rng : XorShift) (memory : Memory) :
    { s.reset with rng } = { initial rng with memory } ↔ s.memory.restoreGlyphs = memory :=
  ⟨congrArg State.memory, congrArg fun memory ↦ { initial rng with memory }⟩

/-- A reset after a load gives a new machine with the program, up to the random words, if and only
if the spare bytes are zero. -/
theorem reset_eq_fresh_iff (s : State) (rng : XorShift) (program : List UInt8) :
    { { s with memory := s.memory.replaceProgram program }.reset with rng } =
        { initial rng with memory := (initial rng).memory.replaceProgram program } ↔
      ∀ p : Address, p.Spare → s.memory.get p = 0 :=
  (reset_eq_iff _ _ _).trans Memory.restoreGlyphs_replaceProgram_eq_iff

/-- After a load and a reset, whatever came before, a machine is a new one with the program loaded
but for its random words and the bytes between the glyphs and the programs. Those are as they were,
so all is as in the new machine if and only if they are zero, and so they are if nothing was ever
stored there. -/
theorem reset_after_load (seed rng : XorShift) (history : List Action) (program : List UInt8)
    (hne : program ≠ []) (hle : program.length ≤ programCapacity) :
    let s := (initial seed).run history
    ∃ t fresh, s.load program = .ok t ∧ (initial rng).load program = .ok fresh ∧
      { t.reset with memory := fresh.memory, rng := fresh.rng } = fresh ∧
      (∀ p, t.reset.memory.get p = if p.Spare then s.memory.get p else fresh.memory.get p) ∧
      ({ t.reset with rng := fresh.rng } = fresh ↔ ∀ p : Address, p.Spare → s.memory.get p = 0) ∧
      ((∀ e ∈ (initial seed).trace history, ∀ p : Address, p.Spare → ¬ e.1.StoresAt e.2 p) →
        { t.reset with rng := fresh.rng } = fresh) := by
  intro s
  have hiff := reset_eq_fresh_iff s rng program
  refine ⟨_, _, s.load_of_accepted hne hle, (initial rng).load_of_accepted hne hle, rfl,
    ?_, hiff, ?_⟩
  · exact Memory.get_restoreGlyphs_replaceProgram
  · intro hstores
    refine hiff.2 fun p hp ↦ ?_
    rw [get_run_of_spare hp fun e he ↦ hstores e he p hp]
    exact Memory.get_initial_of_spare hp

/-- Nothing is left of a byte at `0x300` once a program is loaded. -/
theorem reset_after_load_of_store :
    let s := (initial .fixed).run [.execute (.loadByte .v0 0x2A),
      .execute (.loadIndex (.wrap 0x300)), .execute (.storeRegisters .v0)]
    ∃ t fresh, s.load [0x12, 0x00] = .ok t ∧ (initial .fixed).load [0x12, 0x00] = .ok fresh ∧
      { t.reset with rng := fresh.rng } = fresh := by
  intro s
  obtain ⟨t, fresh, hload, hfresh, -, -, -, hclean⟩ :=
    reset_after_load .fixed .fixed [.execute (.loadByte .v0 0x2A),
      .execute (.loadIndex (.wrap 0x300)), .execute (.storeRegisters .v0)] [0x12, 0x00]
      (by decide) (by decide)
  refine ⟨t, fresh, hload, hfresh, hclean ?_⟩
  have hnothing {s : State} {a : Action} (h : (s.storing a).2 = []) (p : Address) :
      p.Spare → ¬ s.StoresAt a p := by
    rintro - ⟨k, hk, -⟩
    rw [h] at hk
    exact absurd hk (Nat.not_lt_zero k)
  rw [trace, trace, trace, trace, List.forall_mem_cons, List.forall_mem_cons,
    List.forall_mem_singleton]
  refine ⟨hnothing rfl, hnothing rfl, ?_⟩
  rintro p hp ⟨k, hk, rfl⟩
  obtain rfl : k = 0 := Nat.lt_one_iff.1 hk
  exact absurd hp (by decide +kernel)

/-- A program stores the byte `0x2A` at `0x100`, and a load of another program and a reset leave it
there. -/
theorem reset_after_load_keeps_spare_byte :
    let first : List UInt8 := [0x60, 0x2A, 0xA1, 0x00, 0xF0, 0x55]
    let s := (initial .fixed).run [.load first, .step, .step, .step]
    ∃ t fresh, s.load [0x12, 0x00] = .ok t ∧ (initial .fixed).load [0x12, 0x00] = .ok fresh ∧
      t.reset.memory.get (.wrap 0x100) = 0x2A ∧ fresh.memory.get (.wrap 0x100) = 0 ∧
      { t.reset with rng := fresh.rng } ≠ fresh := by
  intro first s
  have hspare : (Address.wrap 0x100).Spare := by decide
  -- The memory stays a variable here, so that nothing evaluates all of it.
  have hsteps (m : Memory) (hfetch : ∀ n, n + 1 < programCapacity →
      m.fetch (UInt16.ofNat (programStart + n)) =
        .ofBytes (first.getD n 0) (first.getD (n + 1) 0)) :
      { initial .fixed with memory := m }.step.step.step.memory.get (.wrap 0x100) = 0x2A := by
    have hword₀ : m.fetch 0x200 = 0x602A := (hfetch 0 (by decide)).trans (by decide)
    have hword₁ : m.fetch 0x202 = 0xA100 := (hfetch 2 (by decide)).trans (by decide)
    have hword₂ : m.fetch 0x204 = 0xF055 := (hfetch 4 (by decide)).trans (by decide)
    let s₀ : State := { initial .fixed with memory := m }
    let s₁ := (s₀.execute (.loadByte .v0 0x2A)).advance (.loadByte .v0 0x2A)
    let s₂ := (s₁.execute (.loadIndex (.wrap 0x100))).advance (.loadIndex (.wrap 0x100))
    have hstep₀ : s₀.step = s₁ := step_of_current rfl (congrArg Instruction.ofWord hword₀)
    have hstep₁ : s₁.step = s₂ := step_of_current rfl (congrArg Instruction.ofWord hword₁)
    have hstep₂ : s₂.step = (s₂.execute (.storeRegisters .v0)).advance (.storeRegisters .v0) :=
      step_of_current rfl (congrArg Instruction.ofWord hword₂)
    have hi : s₂.i = 0x100 := rfl
    have hbytes : s₂.storedBytes (.storeRegisters .v0) = [0x2A] := rfl
    rw [hstep₀, hstep₁, hstep₂, memory_advance,
      (s₂.footprint_execute _).memory, hi, hbytes, Memory.writeList,
      Memory.writeList, Memory.get_write]
    exact if_pos rfl
  have hload : (initial .fixed).apply (.load first) =
      { initial .fixed with memory := (initial .fixed).memory.replaceProgram first } := by
    rw [apply, load_of_accepted _ (by decide) (by decide)]
  have hbyte : s.memory.get (.wrap 0x100) = 0x2A := by
    have hrun : s = _ := run_cons _ _ _
    rw [hrun, hload, run_cons, run_cons, run_cons, run_nil]
    exact hsteps _ fun n hn ↦ Memory.fetch_replaceProgram hn
  refine ⟨_, _, s.load_of_accepted (by decide) (by decide),
    (initial .fixed).load_of_accepted (by decide) (by decide), ?_, ?_, ?_⟩
  · refine (Memory.get_restoreGlyphs_replaceProgram _).trans ?_
    rw [if_pos hspare, hbyte]
  · refine (Memory.get_replaceProgram _ _).trans ?_
    exact (if_pos hspare.2).trans (Memory.get_initial_of_spare hspare)
  · intro h
    have hzero := (reset_eq_fresh_iff s .fixed _).1 h _ hspare
    rw [hbyte] at hzero
    cases hzero

end State

end Chip8
