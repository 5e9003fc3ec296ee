import Chip8.Proofs.Stack.Move

/-!
# The invariant of the call stack

The stack never holds more than sixteen return addresses, and the stack pointer counts them up to
fifteen unless a client sets it. What a client sets it to has no effect on anything else, and lasts
until the next action that moves the return addresses.
-/

namespace Chip8

namespace State

/-- The stack pointer counts the return addresses up to fifteen. -/
def PointerCounts (s : State) : Prop :=
  s.sp.toNat = min s.frames.length 15

/-- The actions after which the stack pointer counts the return addresses again: a reset, a call,
and a return that finds a return address. -/
def Recounts (s : State) (a : Action) : Prop :=
  a = .reset ∨ (∃ target, s.performed? a = some (.call target)) ∨
    s.performed? a = some .ret ∧ s.frames ≠ []

@[simp] theorem toNat_pointer (n : Nat) : (pointer n).toNat = min n 15 := by
  have h : min n 15 < 256 := by omega
  simp [pointer, Nat.mod_eq_of_lt h]

variable {s t : State} {a : Action}

/-! ### Bounds -/

theorem length_frames_apply_le (a : Action) (h : s.frames.length ≤ stackDepth) :
    (s.apply a).frames.length ≤ stackDepth := by
  rw [frames_apply]
  by_cases ha : a = .reset
  · simp [ha, stackMove, StackMove.apply]
  obtain ⟨-, hm⟩ | ⟨-, -, hroom, hm⟩ | ⟨-, -, -, hm⟩ | ⟨-, -, hm⟩ := s.stackMove_cases ha
  · rw [hm]
    exact h
  · rw [hm]
    exact hroom
  · rw [hm, StackMove.apply, List.length_cons, List.length_tail]
    simp only [stackDepth] at h ⊢
    omega
  · rw [hm, StackMove.apply, List.length_tail]
    omega

theorem length_frames_run_le (h : s.frames.length ≤ stackDepth) (history : List Action) :
    (s.run history).frames.length ≤ stackDepth :=
  run_keeps (·.frames.length ≤ stackDepth) (fun a _ _ hs ↦ length_frames_apply_le a hs) h

theorem toNat_sp_apply_le (a : Action) (h : s.sp.toNat ≤ 15) : (s.apply a).sp.toNat ≤ 15 := by
  by_cases hm : s.stackMove a = .keep
  · by_cases hset : a.setsPointer = true
    · obtain ⟨b, rfl⟩ := Action.setsPointer_eq_true.1 hset
      rw [apply, setPointer, toNat_pointer]
      exact Nat.min_le_right _ _
    · rw [sp_apply_of_keep hm (Bool.eq_false_iff.2 hset)]
      exact h
  · rw [sp_apply_of_move hm, toNat_pointer]
    omega

theorem toNat_sp_run_le (h : s.sp.toNat ≤ 15) (history : List Action) :
    (s.run history).sp.toNat ≤ 15 :=
  run_keeps (·.sp.toNat ≤ 15) (fun a _ _ hs ↦ toNat_sp_apply_le a hs) h

/-! ### Counting -/

theorem Recounts.stackMove_ne_keep (h : s.Recounts a) : s.stackMove a ≠ .keep := by
  obtain rfl | ⟨target, hins⟩ | ⟨hins, hframes⟩ := h
  · simp [stackMove]
  · rw [stackMove_of_performed? hins, instructionMove]
    split <;> simp
  · rw [stackMove_of_performed? hins, instructionMove, if_neg hframes]
    simp

theorem PointerCounts.of_move (h : s.stackMove a ≠ .keep) : (s.apply a).PointerCounts := by
  rw [PointerCounts, sp_apply_of_move h, toNat_pointer]

theorem PointerCounts.apply (h : s.PointerCounts) (hset : a.setsPointer = false) :
    (s.apply a).PointerCounts := by
  by_cases hm : s.stackMove a = .keep
  · rw [PointerCounts, sp_apply_of_keep hm hset, frames_apply, hm]
    exact h
  · exact .of_move hm

theorem PointerCounts.run (h : s.PointerCounts) {history : List Action}
    (hset : ∀ a ∈ history, a.setsPointer = false) : (s.run history).PointerCounts :=
  run_keeps PointerCounts (fun a ha _ hs ↦ hs.apply (hset a ha)) h

/-! ### Leaving the stack pointer out -/

def withoutPointer (s : State) : State :=
  { s with sp := 0 }

theorem withoutPointer_advance (s : State) (ins : Instruction) :
    (s.advance ins).withoutPointer = s.withoutPointer.advance ins := by
  unfold advance
  split <;> rfl

theorem withoutPointer_execute (s : State) (ins : Instruction) :
    (s.execute ins).withoutPointer = (s.withoutPointer.execute ins).withoutPointer := by
  cases ins with
  | ret =>
      have hframes : s.withoutPointer.frames = s.frames := rfl
      simp only [execute, ret, hframes]
      split <;> rfl
  | skipIf question =>
      have hanswer : s.withoutPointer.answer question = s.answer question := by
        cases question <;> rfl
      simp only [execute, hanswer]
      split <;> rfl
  | alu op x y =>
      have hreg (z : Register) : s.withoutPointer.reg z = s.reg z := rfl
      simp only [execute, compute, hreg]
      split <;> rfl
  | _ => rfl

theorem withoutPointer_step (s : State) :
    s.step.withoutPointer = s.withoutPointer.step.withoutPointer := by
  have hturn : s.withoutPointer.turn = s.turn := rfl
  unfold step
  rw [hturn]
  cases s.turn with
  | perform ins =>
      calc
        ((s.execute ins).advance ins).withoutPointer
            = (s.execute ins).withoutPointer.advance ins := withoutPointer_advance _ ins
        _ = (s.withoutPointer.execute ins).withoutPointer.advance ins := by
            rw [withoutPointer_execute]
        _ = ((s.withoutPointer.execute ins).advance ins).withoutPointer :=
            (withoutPointer_advance _ ins).symm
  | _ => rfl

theorem withoutPointer_apply (s : State) (a : Action) :
    (s.apply a).withoutPointer = (s.withoutPointer.apply a).withoutPointer := by
  cases a with
  | step => exact withoutPointer_step s
  | execute ins => exact withoutPointer_execute s ins
  | advance ins =>
      exact (withoutPointer_advance s ins).trans (withoutPointer_advance s.withoutPointer ins).symm
  | load program =>
      simp only [apply, load, withoutPointer]
      cases s.memory.load program <;> rfl
  | _ => rfl

theorem withoutPointer_apply_congr (h : s.withoutPointer = t.withoutPointer) (a : Action) :
    (s.apply a).withoutPointer = (t.apply a).withoutPointer := by
  rw [withoutPointer_apply, h, ← withoutPointer_apply]

/-- Leaving out the actions that set the stack pointer changes nothing but the stack pointer. -/
theorem withoutPointer_run_filter (h : s.withoutPointer = t.withoutPointer)
    (history : List Action) :
    (s.run history).withoutPointer =
      (t.run (history.filter (!·.setsPointer))).withoutPointer := by
  induction history generalizing s t with
  | nil => exact h
  | cons a history ih =>
      cases hset : a.setsPointer with
      | false =>
          rw [List.filter_cons_of_pos (by simp [hset])]
          exact ih (withoutPointer_apply_congr h a)
      | true =>
          rw [List.filter_cons_of_neg (by simp [hset])]
          obtain ⟨b, rfl⟩ := Action.setsPointer_eq_true.1 hset
          exact ih h

theorem frames_run_filter (s : State) (history : List Action) :
    (s.run history).frames = (s.run (history.filter (!·.setsPointer))).frames := by
  have h := congrArg frames (withoutPointer_run_filter (Eq.refl s.withoutPointer) history)
  exact h

/-- In every state that a machine can reach, the stack holds at most sixteen return addresses and
the stack pointer is at most fifteen. Setting the stack pointer has no effect on the return
addresses. The stack pointer counts them as long as it has not been set, and counts them again from
the next reset, call or return that finds an address on. -/
theorem stack_invariant (rng : XorShift) (history : List Action) :
    let s := (initial rng).run history
    s.frames.length ≤ stackDepth ∧ s.sp.toNat ≤ 15 ∧
      s.frames = ((initial rng).run (history.filter (!·.setsPointer))).frames ∧
      ((∀ a ∈ history, a.setsPointer = false) → s.sp.toNat = min s.frames.length 15) ∧
      ∀ a later, s.Recounts a → (∀ b ∈ later, b.setsPointer = false) →
        ((s.apply a).run later).sp.toNat = min ((s.apply a).run later).frames.length 15 := by
  intro s
  have hinitial : (initial rng).PointerCounts := rfl
  refine ⟨?_, ?_, ?_, ?_, ?_⟩
  · exact length_frames_run_le (Nat.zero_le _) history
  · exact toNat_sp_run_le (Nat.zero_le _) history
  · exact frames_run_filter _ history
  · exact hinitial.run
  · intro a later ha hlater
    exact (PointerCounts.of_move ha.stackMove_ne_keep).run hlater

end State

end Chip8
