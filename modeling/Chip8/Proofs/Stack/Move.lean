import Chip8.Proofs.State.Run

/-!
# Moves of the call stack

Calls, returns and resets are the only actions that touch the return addresses, and those and
`setPointer` the only ones that touch the stack pointer. A move says what an action does to the
return addresses; whatever moves them sets the pointer by their number.
-/

namespace Chip8

/-- What an action does to the return addresses. -/
inductive StackMove where
  | keep
  | push (frame : Word)
  /-- Puts a return address in the place of the innermost one. -/
  | replace (frame : Word)
  | pop
  | clear
  deriving DecidableEq, Repr

def StackMove.apply : StackMove → List Word → List Word
  | .keep, frames => frames
  | .push frame, frames => frame :: frames
  | .replace frame, frames => frame :: frames.tail
  | .pop, frames => frames.tail
  | .clear, _ => []

def Action.setsPointer : Action → Bool
  | .setPointer _ => true
  | _ => false

theorem Action.setsPointer_eq_true {a : Action} :
    a.setsPointer = true ↔ ∃ b, a = .setPointer b := by
  cases a <;> simp [setsPointer]

namespace State

def instructionMove (s : State) : Instruction → StackMove
  | .ret => if s.frames = [] then .keep else .pop
  | .call _ => if s.frames.length < stackDepth then .push s.next.pc else .replace s.next.pc
  | _ => .keep

def stackMove (s : State) (a : Action) : StackMove :=
  if a = .reset then .clear
  else
    match s.performed? a with
    | some ins => s.instructionMove ins
    | none => .keep

variable (s : State)

@[simp] theorem frames_advance (ins : Instruction) : (s.advance ins).frames = s.frames := by
  unfold advance
  split <;> rfl

@[simp] theorem sp_advance (ins : Instruction) : (s.advance ins).sp = s.sp := by
  unfold advance
  split <;> rfl

@[simp] theorem frames_compute (op : Alu) (x y : Register) :
    (s.compute op x y).frames = s.frames := by
  simp only [compute]
  split <;> rfl

@[simp] theorem sp_compute (op : Alu) (x y : Register) : (s.compute op x y).sp = s.sp := by
  simp only [compute]
  split <;> rfl

theorem frames_execute (ins : Instruction) :
    (s.execute ins).frames = (s.instructionMove ins).apply s.frames := by
  cases ins with
  | ret =>
      cases hs : s.frames with
      | nil => simp [execute, ret, next, instructionMove, hs, StackMove.apply]
      | cons frame frames => simp [execute, ret, instructionMove, hs, StackMove.apply]
  | call target =>
      simp only [execute, call, instructionMove]
      split <;> rfl
  | skipIf question =>
      simp only [execute]
      split <;> rfl
  | alu op x y => exact s.frames_compute op x y
  | loadRegisters x =>
      simp only [execute, loadRegisters]
      rfl
  | _ => rfl

theorem sp_execute (ins : Instruction) :
    (s.execute ins).sp =
      if s.instructionMove ins = .keep then s.sp else pointer (s.execute ins).frames.length := by
  cases ins with
  | ret =>
      cases hs : s.frames with
      | nil => simp [execute, ret, next, instructionMove, hs]
      | cons frame frames => simp [execute, ret, instructionMove, hs]
  | call target =>
      rw [if_neg]
      · rfl
      · simp only [instructionMove]
        split <;> simp
  | skipIf question =>
      simp only [execute]
      split <;> rfl
  | alu op x y => exact s.sp_compute op x y
  | loadRegisters x =>
      simp only [execute, loadRegisters]
      rfl
  | _ => rfl

variable {s}

theorem stackMove_of_performed? {a : Action} {ins : Instruction} (h : s.performed? a = some ins) :
    s.stackMove a = s.instructionMove ins := by
  have ha : a ≠ .reset := by
    rintro rfl
    simp [performed?] at h
  rw [stackMove, if_neg ha, h]

theorem stackMove_of_not_performed? {a : Action} (ha : a ≠ .reset) (h : s.performed? a = none) :
    s.stackMove a = .keep := by
  rw [stackMove, if_neg ha, h]

theorem stack_withMemory (s : State) (memory : Memory) :
    ({ s with memory } : State).frames = s.frames ∧ ({ s with memory } : State).sp = s.sp :=
  ⟨rfl, rfl⟩

theorem stack_apply_of_not_performed? {a : Action} (ha : a ≠ .reset) (h : s.performed? a = none) :
    (s.apply a).frames = s.frames ∧ (a.setsPointer = false → (s.apply a).sp = s.sp) := by
  cases a with
  | step =>
      simp only [apply, step]
      cases hturn : s.turn with
      | perform ins => simp [performed?, hturn] at h
      | _ => exact ⟨rfl, fun _ ↦ rfl⟩
  | execute ins => simp [performed?] at h
  | reset => exact absurd rfl ha
  | advance ins => exact ⟨s.frames_advance ins, fun _ ↦ s.sp_advance ins⟩
  | load program =>
      simp only [apply, load]
      cases s.memory.load program <;> exact ⟨rfl, fun _ ↦ rfl⟩
  | restoreGlyphs =>
      -- With the glyphs spelled out, checking this by computation would go through all of memory.
      have h := s.stack_withMemory s.memory.restoreGlyphs
      exact ⟨h.1, fun _ ↦ h.2⟩
  | setPointer b => exact ⟨rfl, by simp [Action.setsPointer]⟩
  | _ => simp [apply, tick, setKey, setReg]

theorem stack_apply_of_performed? {a : Action} {ins : Instruction}
    (h : s.performed? a = some ins) :
    (s.apply a).frames = (s.execute ins).frames ∧ (s.apply a).sp = (s.execute ins).sp := by
  obtain ⟨pc, happly⟩ := exists_pc_of_performed? h
  rw [happly]
  exact ⟨rfl, rfl⟩

theorem frames_apply (s : State) (a : Action) :
    (s.apply a).frames = (s.stackMove a).apply s.frames := by
  cases hins : s.performed? a with
  | some ins =>
      rw [stackMove_of_performed? hins, (stack_apply_of_performed? hins).1]
      exact s.frames_execute ins
  | none =>
      by_cases ha : a = .reset
      · rw [ha]
        rfl
      · rw [stackMove_of_not_performed? ha hins]
        exact (stack_apply_of_not_performed? ha hins).1

theorem sp_apply_of_move {a : Action} (h : s.stackMove a ≠ .keep) :
    (s.apply a).sp = pointer (s.apply a).frames.length := by
  cases hins : s.performed? a with
  | some ins =>
      obtain ⟨hframes, hsp⟩ := stack_apply_of_performed? hins
      rw [stackMove_of_performed? hins] at h
      rw [hsp, hframes, sp_execute, if_neg h]
  | none =>
      by_cases ha : a = .reset
      · rw [ha]
        rfl
      · exact absurd (stackMove_of_not_performed? ha hins) h

theorem sp_apply_of_keep {a : Action} (h : s.stackMove a = .keep) (hset : a.setsPointer = false) :
    (s.apply a).sp = s.sp := by
  cases hins : s.performed? a with
  | some ins =>
      obtain ⟨-, hsp⟩ := stack_apply_of_performed? hins
      rw [stackMove_of_performed? hins] at h
      rw [hsp, sp_execute, if_pos h]
  | none =>
      have ha : a ≠ .reset := by
        rintro rfl
        simp [stackMove] at h
      exact (stack_apply_of_not_performed? ha hins).2 hset

/-- All that an action other than a reset can do to the return addresses, and when it does it. -/
theorem stackMove_cases (s : State) {a : Action} (ha : a ≠ .reset) :
    ((∀ target, s.performed? a ≠ some (.call target)) ∧ s.stackMove a = .keep) ∨
      (∃ target, s.performed? a = some (.call target) ∧ s.frames.length < stackDepth ∧
        s.stackMove a = .push (s.pc + 2)) ∨
      (∃ target, s.performed? a = some (.call target) ∧ stackDepth ≤ s.frames.length ∧
        s.stackMove a = .replace (s.pc + 2)) ∨
      (s.performed? a = some .ret ∧ s.frames ≠ [] ∧ s.stackMove a = .pop) := by
  cases hins : s.performed? a with
  | none => exact .inl ⟨by simp, stackMove_of_not_performed? ha hins⟩
  | some ins =>
      rw [stackMove_of_performed? hins]
      cases ins with
      | call target =>
          by_cases hroom : s.frames.length < stackDepth
          · exact .inr (.inl ⟨target, rfl, hroom, if_pos hroom⟩)
          · exact .inr (.inr (.inl ⟨target, rfl, Nat.not_lt.1 hroom, if_neg hroom⟩))
      | ret =>
          by_cases hempty : s.frames = []
          · exact .inl ⟨by simp, if_pos hempty⟩
          · exact .inr (.inr (.inr ⟨rfl, hempty, if_neg hempty⟩))
      | _ => exact .inl ⟨by simp, rfl⟩

end State

end Chip8
