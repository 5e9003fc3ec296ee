import Chip8.Proofs.Memory.Load
import Chip8.Proofs.State.Footprint
import Chip8.Proofs.State.Trace

/-!
# The sequence of random words

The state of the generator is a window of four words on a sequence that the seed determines. One
instruction takes a word and moves the window on by one place; nothing else moves it, and a reset
does not move it back. So the words taken are the sequence in order, none left out.
-/

namespace Chip8

namespace XorShift

/-- The sequence that starts with the four words of the seed. -/
def word (seed : UInt32 × UInt32 × UInt32 × UInt32) : Nat → UInt32
  | 0 => seed.1
  | 1 => seed.2.1
  | 2 => seed.2.2.1
  | 3 => seed.2.2.2
  | n + 4 =>
    let t := word seed n ^^^ (word seed n <<< 11)
    (word seed (n + 3) ^^^ (word seed (n + 3) >>> 19)) ^^^ (t ^^^ (t >>> 8))

/-- Output `k` of the generator, counted from zero. The seed itself is not output. -/
def output (seed : UInt32 × UInt32 × UInt32 × UInt32) (k : Nat) : UInt32 :=
  word seed (k + 4)

/-- The generator that has given `k` outputs. -/
def window (seed : UInt32 × UInt32 × UInt32 × UInt32) (k : Nat) : XorShift :=
  ⟨word seed k, word seed (k + 1), word seed (k + 2), word seed (k + 3)⟩

variable {seed : UInt32 × UInt32 × UInt32 × UInt32} {k : Nat}

@[simp] theorem next_window : (window seed k).next = window seed (k + 1) := rfl

@[simp] theorem nextByte_window : (window seed k).nextByte = (output seed k).toUInt8 := rfl

theorem ofSeed?_of_ne_zero (h : seed ≠ (0, 0, 0, 0)) : ofSeed? seed = some (window seed 0) :=
  if_neg h

end XorShift

/-- The register and the mask of the instruction, if it takes a random byte. -/
def Instruction.random? : Instruction → Option (Register × UInt8)
  | .random x mask => some (x, mask)
  | _ => none

theorem Instruction.random?_eq_some {ins : Instruction} {x : Register} {mask : UInt8} :
    ins.random? = some (x, mask) ↔ ins = .random x mask := by
  cases ins <;> simp [random?]

namespace State

/-- The register that a random byte goes to and the mask of the byte, if the action takes one. -/
def random? (s : State) (a : Action) : Option (Register × UInt8) :=
  (s.performed? a).bind Instruction.random?

variable {s : State} {a : Action} {ins : Instruction} {x : Register} {mask : UInt8}
  {seed : UInt32 × UInt32 × UInt32 × UInt32} {k : Nat}

theorem random?_eq_some :
    s.random? a = some (x, mask) ↔ s.performed? a = some (.random x mask) := by
  rw [random?, Option.bind_eq_some_iff]
  constructor
  · rintro ⟨ins, hins, h⟩
    rw [hins, Instruction.random?_eq_some.1 h]
  · intro h
    exact ⟨_, h, rfl⟩

theorem random?_of_turn (h : s.turn = .perform ins) : s.random? .step = ins.random? := by
  rw [random?, performed?_eq_some.2 (.inl ⟨rfl, h⟩), Option.bind_some]

/-- A random byte goes to its register, and besides only the counter and the generator move. -/
theorem apply_of_random? (h : s.random? a = some (x, mask)) :
    ∃ pc, s.apply a =
      { s.setReg x (s.rng.nextByte &&& mask) with pc, rng := s.rng.next } :=
  exists_pc_of_performed? (random?_eq_some.1 h)

theorem rngAfter_of_random?_eq_none (h : s.random? a = none) (hins : s.performed? a = some ins) :
    s.rngAfter ins = s.rng := by
  cases ins with
  | random x mask =>
      rw [random?_eq_some.2 hins] at h
      cases h
  | _ => rfl

theorem rng_advance (s : State) (ins : Instruction) : (s.advance ins).rng = s.rng := by
  unfold advance
  split <;> rfl

theorem rng_reset (s : State) : s.reset.rng = s.rng := by
  -- Checked by computation alone, this would go through all of memory.
  rw [reset, initial]

theorem rng_withMemory (s : State) (memory : Memory) : ({ s with memory } : State).rng = s.rng :=
  rfl

theorem rng_apply_of_not_performed? (h : s.performed? a = none) : (s.apply a).rng = s.rng := by
  cases a with
  | step => exact (step_of_not_performed? h).2.2
  | execute ins => cases h
  | advance ins => exact s.rng_advance ins
  | load program =>
      cases hload : s.load program with
      | error e => rw [apply, hload]
      | ok t =>
          obtain ⟨memory, -, rfl⟩ := load_eq_ok.1 hload
          rw [apply, hload]
  | reset => rw [apply, rng_reset]
  | restoreGlyphs => exact s.rng_withMemory s.memory.restoreGlyphs
  | _ => rfl

/-- No action moves the generator but one that takes a random byte. -/
theorem rng_apply_of_random?_eq_none (h : s.random? a = none) : (s.apply a).rng = s.rng := by
  cases hins : s.performed? a with
  | none => exact rng_apply_of_not_performed? hins
  | some ins =>
      rw [(footprint_of_performed? hins).rng]
      exact rngAfter_of_random?_eq_none h hins

theorem rng_apply (hrng : s.rng = .window seed k) (a : Action) :
    (s.apply a).rng = .window seed (k + (s.random? a).toList.length) := by
  cases hrandom : s.random? a with
  | none => exact (rng_apply_of_random?_eq_none hrandom).trans hrng
  | some e =>
      obtain ⟨pc, ha⟩ := apply_of_random? hrandom
      rw [ha, hrng]
      rfl

/-- Along a history, the generator gives as many outputs as random bytes are taken. -/
theorem rng_run (hrng : s.rng = .window seed k) (history : List Action) :
    (s.run history).rng = .window seed (k + (s.collect random? history).length) := by
  induction history generalizing s k with
  | nil => exact hrng
  | cons a history ih =>
      rw [run_cons, ih (rng_apply hrng a), collect_cons, List.length_append, Nat.add_assoc]

theorem rng_run_of_no_random {history : List Action} (h : s.collect random? history = []) :
    (s.run history).rng = s.rng := by
  induction history generalizing s with
  | nil => rfl
  | cons a history ih =>
      rw [collect_cons, List.append_eq_nil_iff, Option.toList_eq_nil_iff] at h
      rw [run_cons, ih h.2, rng_apply_of_random?_eq_none h.1]

/-- The random bytes of a machine are the outputs of its generator in order, whatever it does
between them: the one taken after `k` others, counted through loads and resets, is the low byte of
output `k` under its mask. It goes to its register and touches no other one, and nothing that takes
no random byte moves the generator. -/
theorem random_bytes_in_order (seed : UInt32 × UInt32 × UInt32 × UInt32)
    (hseed : seed ≠ (0, 0, 0, 0)) :
    ∃ rng, XorShift.ofSeed? seed = some rng ∧
      ∀ (history : List Action) (a : Action),
        let s := (initial rng).run history
        let k := ((initial rng).collect random? history).length
        s.rng = .window seed k ∧
          (∀ x mask, s.random? a = some (x, mask) →
            (s.apply a).reg x = (XorShift.output seed k).toUInt8 &&& mask ∧
              (∀ y, y ≠ x → (s.apply a).reg y = s.reg y) ∧
              { s.apply a with v := s.v, pc := s.pc, rng := s.rng } = s) ∧
          (s.random? a = none → (s.apply a).rng = s.rng) := by
  refine ⟨_, XorShift.ofSeed?_of_ne_zero hseed, ?_⟩
  intro history a s k
  have hrng : s.rng = .window seed k := by
    have hrun := rng_run (s := initial (.window seed 0)) rfl history
    rwa [Nat.zero_add] at hrun
  refine ⟨hrng, ?_, rng_apply_of_random?_eq_none⟩
  intro x mask hrandom
  obtain ⟨pc, ha⟩ := apply_of_random? hrandom
  have hbyte : s.rng.nextByte = (XorShift.output seed k).toUInt8 := by
    rw [hrng, XorShift.nextByte_window]
  rw [ha, hbyte]
  refine ⟨?_, ?_, rfl⟩
  · exact s.reg_setReg_self x _
  · intro y hy
    exact (reg_setReg x y _).trans (if_neg (Ne.symm hy))

/-- A reset and a load that fails lie between the first two random bytes, and the third one follows
on these. -/
theorem random_bytes_in_order_over_reset :
    ∃ rng, XorShift.ofSeed? (0x193A6754, 0xA8A7D469, 0x97830E05, 0x113BA7BB) = some rng ∧
      let s := (initial rng).run
        [.execute (.random .v0 0xFF), .reset, .load [], .execute (.random .flag 0x0F), .tick]
      (s.apply (.execute (.random .v0 0x3F))).reg .v0 = 0x0B ∧
        (s.apply (.execute (.addIndex .v0))).rng = s.rng := by
  obtain ⟨rng, hseed, hbytes⟩ :=
    random_bytes_in_order (0x193A6754, 0xA8A7D469, 0x97830E05, 0x113BA7BB) (by decide)
  refine ⟨rng, hseed, ?_, ?_⟩
  · obtain ⟨-, hrandom, -⟩ := hbytes
      [.execute (.random .v0 0xFF), .reset, .load [], .execute (.random .flag 0x0F), .tick]
      (.execute (.random .v0 0x3F))
    have hthird : (XorShift.output (0x193A6754, 0xA8A7D469, 0x97830E05, 0x113BA7BB) 2).toUInt8 &&&
        0x3F = 0x0B := by
      decide +kernel
    exact (hrandom _ _ rfl).1.trans hthird
  · exact (hbytes _ (.execute (.addIndex .v0))).2.2 rfl

end State

end Chip8
