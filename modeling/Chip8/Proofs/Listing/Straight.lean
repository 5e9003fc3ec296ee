import Chip8.Proofs.Listing.Fetch
import Chip8.Proofs.Stack.Move
import Chip8.Proofs.State.Counter
import Chip8.Proofs.State.Footprint

/-!
# Straight-line code

Code that never jumps, calls, skips, waits or stores runs in the order of its listing: each step
goes on to the next line, whether the line holds an instruction or data. A return is no exception,
since there is nothing to return to.
-/

namespace Chip8

/-- On an empty stack, a step that performs the instruction goes on to the next word, leaves memory
alone and starts no wait. -/
def Instruction.isStraight : Instruction → Bool
  | .jump _ | .jumpFrom _ | .call _ | .skipIf _ | .awaitKey _ | .storeDecimal _
  | .storeRegisters _ => false
  | _ => true

namespace State

/-- The machine is at a place in straight-line code. -/
structure InOrder (memory : Memory) (place : Word) (s : State) : Prop where
  memory : s.memory = memory
  frames : s.frames = []
  awaiting : s.awaiting = none
  pc : s.pc = place

variable {s : State} {ins : Instruction} {m : Memory} {place : Word}

theorem pc_of_straight (hframes : s.frames = []) (h : ins.isStraight = true) :
    ((s.execute ins).advance ins).pc = s.pc + 2 := by
  rw [pc_advance_execute]
  cases ins with
  | ret =>
      rw [destination_ret, hframes]
      rfl
  | jump | jumpFrom | call | skipIf | awaitKey | storeDecimal | storeRegisters => cases h
  | _ => rfl

theorem storedBytes_of_straight (h : ins.isStraight = true) : s.storedBytes ins = [] := by
  cases ins with
  | storeDecimal x => cases h
  | storeRegisters x => cases h
  | _ => rfl

theorem awaitingAfter_of_straight (h : ins.isStraight = true) :
    s.awaitingAfter ins = s.awaiting := by
  cases ins with
  | awaitKey x => cases h
  | _ => rfl

theorem instructionMove_of_straight (hframes : s.frames = []) (h : ins.isStraight = true) :
    s.instructionMove ins = .keep := by
  cases ins with
  | ret => exact if_pos hframes
  | call target => cases h
  | _ => rfl

namespace InOrder

theorem perform (h : InOrder m place s) (hturn : s.turn = .perform ins)
    (hstraight : ins.isStraight = true) : InOrder m (place + 2) s.step := by
  have hfootprint : Footprint s ins s.step :=
    footprint_of_performed? (performed?_eq_some.2 (.inl ⟨rfl, hturn⟩))
  refine ⟨?_, ?_, ?_, ?_⟩
  · rw [hfootprint.memory, storedBytes_of_straight hstraight]
    exact h.memory
  · rw [step_of_turn_perform hturn, frames_advance, frames_execute,
      instructionMove_of_straight h.frames hstraight]
    exact h.frames
  · rw [hfootprint.awaiting, awaitingAfter_of_straight hstraight]
    exact h.awaiting
  · rw [step_of_turn_perform hturn, pc_of_straight h.frames hstraight, h.pc]

theorem passOver {e : Unrecognized} (h : InOrder m place s) (hturn : s.turn = .passOver e) :
    InOrder m (place + 2) s.step := by
  rw [step, hturn]
  exact ⟨h.memory, h.frames, h.awaiting, congrArg (· + 2) h.pc⟩

/-- A step goes on to the next word, if there is no instruction at the place that does otherwise. -/
theorem step (h : InOrder m place s)
    (hstraight : ∀ ins, Instruction.ofWord (m.fetch place) = .ok ins → ins.isStraight = true) :
    InOrder m (place + 2) s.step := by
  have hcurrent : s.current = Instruction.ofWord (m.fetch place) := by
    rw [current, word, h.memory, h.pc]
  obtain ⟨ins, hins, hturn⟩ | ⟨e, -, hturn⟩ := turn_of_not_awaiting h.awaiting
  · exact h.perform hturn (hstraight ins (hcurrent ▸ hins))
  · exact h.passOver hturn

theorem run {n j : Nat} (h : InOrder m (UInt16.ofNat n) s)
    (hstraight : ∀ i < j, ∀ ins, Instruction.ofWord (m.fetch (UInt16.ofNat (n + 2 * i))) = .ok ins →
      ins.isStraight = true) :
    InOrder m (UInt16.ofNat (n + 2 * j)) (s.run (List.replicate j .step)) := by
  induction j with
  | zero => exact h
  | succ j ih =>
      have hplace : UInt16.ofNat (n + 2 * (j + 1)) = UInt16.ofNat (n + 2 * j) + 2 := by
        rw [Nat.mul_succ, ← Nat.add_assoc, UInt16.ofNat_add]
        rfl
      rw [List.replicate_succ', run_append, run_cons, run_nil, hplace]
      have hbefore := ih fun i hi ↦ hstraight i (Nat.lt_succ_of_lt hi)
      exact hbefore.step (hstraight j (Nat.lt_succ_self j))

end InOrder

end State

namespace Listing

variable {program : List UInt8} {k : Nat} {l : Line}

theorem isStraight_of_fetch {m m' : Memory} {ins : Instruction} (hload : m.load program = .ok m')
    (hl : l ∈ lines program) (hsize : l.size = 2)
    (hstraight : ∀ ins ∈ l.instruction?, ins.isStraight = true)
    (hins : Instruction.ofWord (m'.fetch (UInt16.ofNat l.address)) = .ok ins) :
    ins.isStraight = true := by
  apply hstraight
  rw [instruction?_of_size_eq_two hsize, ← fetch_of_mem_lines hload hl, hins]
  rfl

/-- As long as the listing of a program shows straight-line code and data of two bytes, the machine
runs through it line by line: after `j` steps it is at line `j` and finds there what the line shows,
memory is as it was loaded, and the stack is empty. -/
theorem straight_code_runs_in_order (rng : XorShift) (program : List UInt8) (s : State)
    (hload : (State.initial rng).load program = .ok s) (k : Nat) (hk : k ≤ (lines program).length)
    (hstraight : ∀ l ∈ (lines program).take k,
      l.size = 2 ∧ ∀ ins ∈ l.instruction?, ins.isStraight = true) :
    ∀ j ≤ k,
      let t := s.run (List.replicate j .step)
      t.pc.toNat = 0x200 + 2 * j ∧
        (∀ l, (lines program)[j]? = some l → l.size = 2 →
          t.pc.toNat = l.address ∧ t.current.toOption = l.instruction?) ∧
        t.memory = s.memory ∧ t.frames = [] := by
  intro j hj t
  obtain ⟨memory, hmemory, rfl⟩ := State.load_eq_ok.1 hload
  have hstart : State.InOrder memory (UInt16.ofNat programStart)
      { State.initial rng with memory } := ⟨rfl, rfl, rfl, rfl⟩
  have ht : State.InOrder memory (UInt16.ofNat (programStart + 2 * j)) t := by
    refine hstart.run fun i hi ins hins ↦ ?_
    obtain ⟨l, hl⟩ : ∃ l, (lines program)[i]? = some l :=
      ⟨_, List.getElem?_eq_getElem (Nat.lt_of_lt_of_le hi (Nat.le_trans hj hk))⟩
    have hfirst : l ∈ (lines program).take k := by
      refine List.mem_of_getElem? (i := i) ?_
      rw [List.getElem?_take_of_lt (Nat.lt_of_lt_of_le hi hj), hl]
    obtain ⟨hsize, hins'⟩ := hstraight l hfirst
    have haddress : l.address = programStart + 2 * i := address_of_line hl
    rw [← haddress] at hins
    exact isStraight_of_fetch hmemory (List.mem_of_getElem? hl) hsize hins' hins
  have hpc : t.pc.toNat = 0x200 + 2 * j := by
    obtain ⟨-, hfits, -⟩ := Memory.load_eq_ok.1 hmemory
    rw [lines, length_sweep] at hk
    simp only [programCapacity] at hfits
    simp only [ht.pc, programStart, UInt16.toNat_ofNat']
    omega
  refine ⟨hpc, ?_, ht.memory, ht.frames⟩
  intro l hl hsize
  have haddress : l.address = programStart + 2 * j := address_of_line hl
  refine ⟨hpc.trans haddress.symm, ?_⟩
  rw [State.current, State.word, ht.memory, ht.pc, instruction?_of_size_eq_two hsize,
    ← fetch_of_mem_lines hmemory (List.mem_of_getElem? hl), haddress]

/-- A return with nothing to return to, a word that is none, and a last byte that is left over. -/
theorem straight_code_runs_past_data :
    let program : List UInt8 :=
      [0x00, 0xE0, 0x00, 0xEE, 0x01, 0x23, 0xA2, 0x0A, 0xD0, 0x15, 0xC3, 0xFF, 0x0F]
    ∃ s, (State.initial .fixed).load program = .ok s ∧
      ∀ j ≤ 6,
        let t := s.run (List.replicate j .step)
        t.pc.toNat = 0x200 + 2 * j ∧
          (∀ l, (lines program)[j]? = some l → l.size = 2 →
            t.pc.toNat = l.address ∧ t.current.toOption = l.instruction?) ∧
          t.memory = s.memory ∧ t.frames = [] := by
  intro program
  have hload := (State.initial .fixed).load_of_accepted (show program ≠ [] by decide) (by decide)
  exact ⟨_, hload, straight_code_runs_in_order .fixed program _ hload 6 (by decide) (by decide)⟩

end Listing

end Chip8
