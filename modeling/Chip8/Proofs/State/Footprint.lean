import Chip8.Proofs.State.Run

/-!
# The footprint of an instruction

What performing an instruction makes of memory, of the keypad, of the timers, of the wait for a key
and of the random words, whether a step performs it or it is executed alone.
-/

namespace Chip8

namespace State

/-- The bytes that the instruction stores from the index register on. -/
def storedBytes (s : State) : Instruction → List UInt8
  | .storeDecimal x => decimalDigits (s.reg x)
  | .storeRegisters x => s.v.toList.take (x.val + 1)
  | _ => []

/-- What the instruction makes of the timers. -/
def timersAfter (s : State) (timers : Timers) : Instruction → Timers
  | .setDelay x => timers.setDelay (s.reg x)
  | .setSound x => timers.setSound (s.reg x)
  | _ => timers

/-- The register that waits for a key press after the instruction. -/
def awaitingAfter (s : State) : Instruction → Option Register
  | .awaitKey x => some x
  | _ => s.awaiting

/-- What the instruction makes of the generator. -/
def rngAfter (s : State) : Instruction → XorShift
  | .random _ _ => s.rng.next
  | _ => s.rng

/-- In `t` these parts are what the instruction makes of them in `s`. -/
structure Footprint (s : State) (ins : Instruction) (t : State) : Prop where
  memory : t.memory = s.memory.writeList s.i (s.storedBytes ins)
  keypad : t.keypad = s.keypad
  timers : t.timers = s.timersAfter s.timers ins
  awaiting : t.awaiting = s.awaitingAfter ins
  rng : t.rng = s.rngAfter ins

variable {s t : State} {ins : Instruction} {a : Action} {x r : Register}

theorem length_storedBytes (s : State) (x : Register) :
    (s.storedBytes (.storeRegisters x)).length = x.val + 1 := by
  rw [storedBytes, List.length_take, Vector.length_toList, Nat.min_eq_left x.isLt]

theorem getElem?_storedBytes (hr : r ≤ x) :
    (s.storedBytes (.storeRegisters x))[r.val]? = some (s.reg r) := by
  have hlt : r.val < x.val + 1 := Nat.lt_succ_of_le hr
  rw [storedBytes, List.getElem?_take_of_lt hlt]
  simp [reg]

theorem footprint_execute (s : State) (ins : Instruction) : Footprint s ins (s.execute ins) := by
  cases ins with
  | ret =>
      simp only [execute, ret]
      split <;> exact ⟨rfl, rfl, rfl, rfl, rfl⟩
  | skipIf question =>
      simp only [execute]
      split <;> exact ⟨rfl, rfl, rfl, rfl, rfl⟩
  | alu op x y =>
      simp only [execute, compute]
      split <;> exact ⟨rfl, rfl, rfl, rfl, rfl⟩
  | loadRegisters x =>
      simp only [execute, loadRegisters]
      exact ⟨rfl, rfl, rfl, rfl, rfl⟩
  | _ => exact ⟨rfl, rfl, rfl, rfl, rfl⟩

theorem Footprint.advance (h : Footprint s ins t) : Footprint s ins (t.advance ins) := by
  unfold State.advance
  split
  · exact h
  · exact ⟨h.memory, h.keypad, h.timers, h.awaiting, h.rng⟩

theorem footprint_of_performed? (h : s.performed? a = some ins) : Footprint s ins (s.apply a) := by
  obtain ha | ha := apply_of_performed? h
  · rw [ha]
    exact s.footprint_execute ins
  · rw [ha]
    exact (s.footprint_execute ins).advance

/-- A step that performs nothing leaves memory, the timers and the random words as they are. -/
theorem step_of_not_performed? (h : s.performed? .step = none) :
    s.step.memory = s.memory ∧ s.step.timers = s.timers ∧ s.step.rng = s.rng := by
  rw [step]
  cases hs : s.turn with
  | perform ins =>
      rw [performed?_eq_some.2 (.inl ⟨rfl, hs⟩)] at h
      cases h
  | _ => exact ⟨rfl, rfl, rfl⟩

end State

end Chip8
