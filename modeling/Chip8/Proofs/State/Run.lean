import Chip8.Proofs.Memory.Load
import Chip8.State.Action

/-!
# Histories

What the actions of a history perform, and how a fact that every action keeps is carried along a
history, for one machine and for two that take the same actions.
-/

namespace Chip8

namespace State

/-- The instruction that an action performs. -/
def performed? (s : State) : Action → Option Instruction
  | .step =>
    match s.turn with
    | .perform ins => some ins
    | _ => none
  | .execute ins => some ins
  | _ => none

/-- The words that the steps of a history decode. A step that waits for a press decodes none. -/
def decoded (s : State) : List Action → List (Option Word)
  | [] => []
  | .step :: history =>
    (if s.awaiting = none then some s.word else none) :: s.step.decoded history
  | a :: history => (s.apply a).decoded history

variable {s t : State} {a : Action} {ins : Instruction}

theorem performed?_eq_some :
    s.performed? a = some ins ↔ a = .step ∧ s.turn = .perform ins ∨ a = .execute ins := by
  cases a with
  | step => cases h : s.turn <;> simp [performed?, h]
  | execute ins' => simp [performed?]
  | _ => simp [performed?]

/-- The cycle finds the instructions of a program where the program was loaded. -/
theorem current_of_replaceProgram {m : Memory} {program : List UInt8} {n : Nat}
    (hmemory : s.memory = m.replaceProgram program)
    (hpc : s.pc = UInt16.ofNat (programStart + n)) (hn : n + 1 < programCapacity) :
    s.current = Instruction.ofWord (.ofBytes (program.getD n 0) (program.getD (n + 1) 0)) := by
  rw [current, word, hpc, hmemory, Memory.fetch_replaceProgram hn]

theorem turn_of_not_awaiting (h : s.awaiting = none) :
    (∃ ins, s.current = .ok ins ∧ s.turn = .perform ins) ∨
      ∃ e, s.current = .error e ∧ s.turn = .passOver e := by
  unfold turn
  rw [h]
  cases s.current with
  | ok ins => exact .inl ⟨ins, rfl, rfl⟩
  | error e => exact .inr ⟨e, rfl, rfl⟩

theorem step_of_turn_perform (h : s.turn = .perform ins) :
    s.step = (s.execute ins).advance ins := by
  rw [step, h]

theorem turn_of_current (hwait : s.awaiting = none) (h : s.current = .ok ins) :
    s.turn = .perform ins := by
  simp only [turn, hwait, h]

theorem step_of_current (hwait : s.awaiting = none) (h : s.current = .ok ins) :
    s.step = (s.execute ins).advance ins :=
  step_of_turn_perform (turn_of_current hwait h)

/-- An action that performs an instruction executes it, and a step moves on past it. -/
theorem apply_of_performed? (h : s.performed? a = some ins) :
    s.apply a = s.execute ins ∨ s.apply a = (s.execute ins).advance ins := by
  obtain ⟨rfl, hturn⟩ | rfl := performed?_eq_some.1 h
  · exact .inr (step_of_turn_perform hturn)
  · exact .inl rfl

/-- Apart from the counter, an action that performs an instruction does what executing it does. -/
theorem exists_pc_of_performed? (h : s.performed? a = some ins) :
    ∃ pc, s.apply a = { s.execute ins with pc } := by
  obtain ha | ha := apply_of_performed? h
  · exact ⟨_, ha⟩
  · rw [ha, advance]
    split
    · exact ⟨_, rfl⟩
    · exact ⟨_, rfl⟩

theorem reg_of_performed? (h : s.performed? a = some ins) (x : Register) :
    (s.apply a).reg x = (s.execute ins).reg x := by
  obtain ⟨pc, happly⟩ := exists_pc_of_performed? h
  rw [happly]
  rfl

theorem index_of_performed? (h : s.performed? a = some ins) : (s.apply a).i = (s.execute ins).i := by
  obtain ⟨pc, happly⟩ := exists_pc_of_performed? h
  rw [happly]

theorem apply_of_performed?_ret {frame : Word} {frames : List Word}
    (h : s.performed? a = some .ret) (hframes : s.frames = frame :: frames) :
    s.apply a = { s with frames, sp := pointer frames.length, pc := frame } := by
  have hret : s.execute .ret = { s with frames, sp := pointer frames.length, pc := frame } := by
    rw [execute, ret, hframes]
  obtain ha | ha := apply_of_performed? h
  · rw [ha, hret]
  · rw [ha, hret, advance]
    rfl

/-- What every action of a history keeps holds after the history. -/
theorem run_keeps (p : State → Prop) {history : List Action}
    (hkeep : ∀ a ∈ history, ∀ s, p s → p (s.apply a)) (hs : p s) : p (s.run history) := by
  induction history generalizing s with
  | nil => exact hs
  | cons a history ih =>
      rw [List.forall_mem_cons] at hkeep
      exact ih hkeep.2 (hkeep.1 s hs)

/-- What every action keeps between two machines that both take it holds after every history. -/
theorem run_couples (r : State → State → Prop)
    (hkeep : ∀ s t a, r s t → r (s.apply a) (t.apply a)) (h : r s t) (history : List Action) :
    r (s.run history) (t.run history) := by
  induction history generalizing s t with
  | nil => exact h
  | cons a history ih => exact ih (hkeep s t a h)

end State

end Chip8
