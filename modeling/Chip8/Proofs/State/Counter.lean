import Chip8.Proofs.State.Run

/-!
# Where the counter goes

Four instructions name the place that the counter goes to. A skip goes past the next word or to it,
as its question is answered, and all else goes on to the next word, whether it is an instruction or
none. So of two skips with opposite questions exactly one leaves out the next word.
-/

namespace Chip8

/-- The answer to the question is yes. A register above 15 names no key, so it names none that is
down. -/
def Question.Holds (s : State) : Question → Prop
  | .eqByte x b => s.reg x = b
  | .neByte x b => s.reg x ≠ b
  | .eqRegister x y => s.reg x = s.reg y
  | .neRegister x y => s.reg x ≠ s.reg y
  | .keyDown x => ∃ k : Key, k.val = (s.reg x).toNat ∧ s.keypad.isDown k = true
  | .keyUp x => ¬ ∃ k : Key, k.val = (s.reg x).toNat ∧ s.keypad.isDown k = true

/-- The question of the other skip with the same operands. -/
def Question.opposite : Question → Question
  | .eqByte x b => .neByte x b
  | .neByte x b => .eqByte x b
  | .eqRegister x y => .neRegister x y
  | .neRegister x y => .eqRegister x y
  | .keyDown x => .keyUp x
  | .keyUp x => .keyDown x

theorem Keypad.isDownByte_eq_true {p : Keypad} {b : UInt8} :
    p.isDownByte b = true ↔ ∃ k : Key, k.val = b.toNat ∧ p.isDown k = true := by
  unfold isDownByte Key.ofByte?
  by_cases hb : b.toNat < 16
  · rw [dif_pos hb]
    constructor
    · intro h
      exact ⟨⟨b.toNat, hb⟩, rfl, h⟩
    · rintro ⟨k, hk, h⟩
      obtain rfl : k = ⟨b.toNat, hb⟩ := Fin.ext hk
      exact h
  · rw [dif_neg hb]
    constructor
    · intro h
      cases h
    · rintro ⟨k, hk, -⟩
      exact absurd (hk ▸ k.isLt) hb

namespace State

variable {s : State} {question : Question}

theorem answer_eq_true : s.answer question = true ↔ question.Holds s := by
  cases question with
  | keyDown x => exact Keypad.isDownByte_eq_true
  | keyUp x =>
      rw [answer, Bool.not_eq_true', ← Bool.not_eq_true, Keypad.isDownByte_eq_true]
      rfl
  | _ => exact decide_eq_true_iff

instance : Decidable (question.Holds s) :=
  decidable_of_iff _ answer_eq_true

theorem holds_opposite : question.opposite.Holds s ↔ ¬ question.Holds s := by
  cases question with
  | neByte | neRegister | keyUp => exact Classical.not_not.symm
  | _ => rfl

/-- Where the counter goes with the instruction. -/
def destination (s : State) : Instruction → Word
  | .jump target | .call target => target.toWord
  | .jumpFrom base => base.toWord + (s.reg .v0).toUInt16
  | .ret => s.frames.headD (s.pc + 2)
  | .skipIf question => if question.Holds s then s.pc + 4 else s.pc + 2
  | _ => s.pc + 2

theorem destination_ret (s : State) : s.destination .ret = s.frames.headD (s.pc + 2) := rfl

theorem destination_skipIf (s : State) (question : Question) :
    s.destination (.skipIf question) = if question.Holds s then s.pc + 4 else s.pc + 2 := rfl

theorem pc_next_next (s : State) : s.next.next.pc = s.pc + 4 := by
  simp only [next, UInt16.add_assoc]
  rfl

/-- Between them, executing the instruction and moving on take the counter to its destination. -/
theorem pc_advance_execute (s : State) (ins : Instruction) :
    ((s.execute ins).advance ins).pc = s.destination ins := by
  cases ins with
  | ret =>
      rw [destination_ret, execute, ret]
      cases s.frames with
      | nil => rfl
      | cons frame frames => rfl
  | skipIf question =>
      rw [destination_skipIf, execute]
      by_cases h : question.Holds s
      · rw [if_pos h, if_pos (answer_eq_true.2 h)]
        exact s.pc_next_next
      · rw [if_neg h, if_neg (mt answer_eq_true.1 h)]
        rfl
  | alu op x y =>
      simp only [execute, compute]
      split <;> rfl
  | loadRegisters x =>
      simp only [execute, loadRegisters]
      rfl
  | _ => rfl

/-- From the last word on, a skip goes round and leaves out the first word, since 16 names no key. -/
example :
    let s := { initial .fixed with pc := 0xFFFE, v := .replicate 16 16 }
    ((s.execute (.skipIf (.keyUp 0))).advance (.skipIf (.keyUp 0))).pc = 2 := by decide

/-- A step of a machine that does not wait takes the counter to the destination of the instruction
that it meets, and a word that is none is passed over with nothing else changed. Of two skips that
ask opposite questions one goes on to the next word and the other one past it. -/
theorem step_goes_to_destination (s : State) :
    (s.awaiting = none →
      (∀ ins, s.current = .ok ins → s.step.pc = s.destination ins) ∧
        ∀ e, s.current = .error e → s.step = { s with pc := s.pc + 2 }) ∧
      ∀ question : Question,
        let after (question : Question) :=
          ((s.execute (.skipIf question)).advance (.skipIf question)).pc
        after question = s.pc + 2 ∧ after question.opposite = s.pc + 4 ∨
          after question = s.pc + 4 ∧ after question.opposite = s.pc + 2 := by
  constructor
  · intro hwait
    constructor
    · intro ins hins
      rw [step_of_current hwait hins]
      exact s.pc_advance_execute ins
    · intro e he
      have hturn : s.turn = .passOver e := by simp only [turn, hwait, he]
      rw [step, hturn]
      rfl
  · intro question after
    have hafter (question : Question) :
        after question = if question.Holds s then s.pc + 4 else s.pc + 2 :=
      s.pc_advance_execute (.skipIf question)
    rw [hafter, hafter]
    by_cases h : question.Holds s
    · rw [if_pos h, if_neg fun h' ↦ holds_opposite.1 h' h]
      exact .inr ⟨rfl, rfl⟩
    · rw [if_neg h, if_pos (holds_opposite.2 h)]
      exact .inl ⟨rfl, rfl⟩

end State

end Chip8
