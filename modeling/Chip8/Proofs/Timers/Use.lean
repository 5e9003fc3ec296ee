import Chip8.Proofs.State.Footprint
import Chip8.Proofs.State.Trace

/-!
# Who uses the timers

Three instructions use the timers: one reads the first timer and two set one of them. All others do
the same whatever the timers are and leave them as they are, so a tick may as well come after such
an instruction as before it.
-/

namespace Chip8

inductive Timer where
  | delay
  | sound
  deriving DecidableEq, Repr

def Timers.get (t : Timers) : Timer → UInt8
  | .delay => t.delay
  | .sound => t.sound

namespace Instruction

def usesTimers : Instruction → Bool
  | .loadDelay _ | .setDelay _ | .setSound _ => true
  | _ => false

/-- The register that the instruction sets the timer from. -/
def timerSource? (timer : Timer) : Instruction → Option Register
  | .setDelay x => if timer = .delay then some x else none
  | .setSound x => if timer = .sound then some x else none
  | _ => none

end Instruction

namespace State

def withTimers (s : State) (timers : Timers) : State :=
  { s with timers }

def withoutTimers (s : State) : State :=
  s.withTimers .zero

/-- What an action in play makes of the timers. -/
def timersThrough (s : State) (timers : Timers) (a : Action) : Timers :=
  if a = .tick then timers.tick
  else
    match s.performed? a with
    | some ins => s.timersAfter timers ins
    | none => timers

variable {s : State} {ins : Instruction} {a : Action}

/-! ### Instructions -/

theorem execute_withTimers (hread : ∀ x, ins ≠ .loadDelay x) (timers : Timers) :
    (s.withTimers timers).execute ins = (s.execute ins).withTimers (s.timersAfter timers ins) := by
  cases ins with
  | loadDelay x => exact absurd rfl (hread x)
  | ret =>
      have hframes : (s.withTimers timers).frames = s.frames := rfl
      simp only [execute, ret, hframes]
      split <;> rfl
  | skipIf question =>
      have hanswer : (s.withTimers timers).answer question = s.answer question := by
        cases question <;> rfl
      simp only [execute, hanswer]
      split <;> rfl
  | alu op x y =>
      have hreg (z : Register) : (s.withTimers timers).reg z = s.reg z := rfl
      simp only [execute, compute, hreg]
      split <;> rfl
  | _ => rfl

theorem next_withTimers (s : State) (timers : Timers) :
    (s.withTimers timers).next = s.next.withTimers timers := rfl

theorem receive_withTimers (s : State) (x : Register) (k : Key) (timers : Timers) :
    (s.withTimers timers).receive x k = (s.receive x k).withTimers timers := rfl

theorem advance_withTimers (s : State) (ins : Instruction) (timers : Timers) :
    (s.withTimers timers).advance ins = (s.advance ins).withTimers timers := by
  unfold advance
  split <;> rfl

theorem timersAfter_of_usesTimers (h : ins.usesTimers = false) (timers : Timers) :
    s.timersAfter timers ins = timers := by
  cases ins with
  | setDelay x => cases h
  | setSound x => cases h
  | _ => rfl

/-! ### Actions in play -/

theorem timersThrough_of_performed? (h : s.performed? a = some ins) (timers : Timers) :
    s.timersThrough timers a = s.timersAfter timers ins := by
  have ha : a ≠ .tick := by
    rintro rfl
    cases h
  rw [timersThrough, if_neg ha, h]

theorem timersThrough_of_not_performed? (ha : a ≠ .tick) (h : s.performed? a = none)
    (timers : Timers) : s.timersThrough timers a = timers := by
  rw [timersThrough, if_neg ha, h]

theorem performed?_of_turn_ne (h : ∀ ins, s.turn ≠ .perform ins) : s.performed? .step = none := by
  cases hins : s.performed? .step with
  | none => rfl
  | some ins =>
      obtain ⟨-, hturn⟩ | hexecute := performed?_eq_some.1 hins
      · exact absurd hturn (h ins)
      · cases hexecute

theorem apply_withTimers (ha : a.inPlay) (hread : ∀ x, s.performed? a ≠ some (.loadDelay x))
    (timers : Timers) :
    (s.withTimers timers).apply a = (s.apply a).withTimers (s.timersThrough timers a) := by
  cases a with
  | step =>
      have hturn : (s.withTimers timers).turn = s.turn := rfl
      simp only [apply]
      rw [step, hturn]
      cases hs : s.turn with
      | perform ins =>
          have hins : s.performed? .step = some ins := performed?_eq_some.2 (.inl ⟨rfl, hs⟩)
          have hread' : ∀ x, ins ≠ .loadDelay x := by
            rintro x rfl
            exact hread x hins
          rw [step_of_turn_perform hs, timersThrough_of_performed? hins]
          simp only
          rw [execute_withTimers hread', advance_withTimers]
      | _ =>
          have hnone : s.performed? .step = none := performed?_of_turn_ne (by simp [hs])
          have hkeep := timersThrough_of_not_performed? (a := .step) (by simp) hnone timers
          simp only [step, hs, hkeep, receive_withTimers, next_withTimers]
  | tick => rfl
  | setKey k isDown => rfl
  | _ => simp [Action.inPlay] at ha

theorem timers_apply (ha : a.inPlay) : (s.apply a).timers = s.timersThrough s.timers a := by
  cases hins : s.performed? a with
  | some ins => rw [(footprint_of_performed? hins).timers, timersThrough_of_performed? hins]
  | none =>
      cases a with
      | step =>
          rw [timersThrough_of_not_performed? (by simp) hins]
          exact (step_of_not_performed? hins).2.1
      | tick => rfl
      | setKey k isDown => rfl
      | _ => simp [Action.inPlay] at ha

/-- A tick commutes with a step that performs no instruction that uses the timers. -/
theorem tick_step_comm (h : ∀ ins, s.performed? .step = some ins → ins.usesTimers = false) :
    s.tick.step = s.step.tick := by
  have hread : ∀ x, s.performed? .step ≠ some (.loadDelay x) := by
    intro x hx
    cases h _ hx
  have hkeep (timers : Timers) : s.timersThrough timers .step = timers := by
    cases hins : s.performed? .step with
    | none => exact timersThrough_of_not_performed? (by simp) hins timers
    | some ins =>
        rw [timersThrough_of_performed? hins]
        exact timersAfter_of_usesTimers (h ins hins) timers
  calc
    s.tick.step = (s.withTimers s.timers.tick).apply .step := rfl
    _ = s.step.withTimers s.timers.tick := by
        rw [apply_withTimers rfl hread, hkeep]
        rfl
    _ = s.step.withTimers s.step.timers.tick := by
        rw [show s.step.timers = s.timers from (timers_apply rfl).trans (hkeep s.timers)]
    _ = s.step.tick := rfl

end State

end Chip8
