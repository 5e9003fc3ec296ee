import Chip8.Proofs.Timers.Use
import Mathlib.Data.List.DropRight
import Mathlib.Data.List.Induction

/-!
# What the timers hold

The values of the two timers, told from their past alone. A timer holds what it was last set to less
the ticks since then, down to zero and no further, and what the other timer is set to does not matter
to it.
-/

namespace Chip8

namespace Timers

/-- What can be done to the timers. -/
inductive Operation where
  | set (timer : Timer) (b : UInt8)
  | tick
  /-- Stops both timers. -/
  | clear
  deriving DecidableEq, Repr

namespace Operation

/-- What the operation leaves in the timer whatever was there before. -/
def written? (timer : Timer) : Operation → Option UInt8
  | set timer' b => if timer' = timer then some b else none
  | tick => none
  | clear => some 0

/-- Everything concerns a timer but what the other one is set to. -/
def concerns (timer : Timer) : Operation → Bool
  | set timer' _ => timer' = timer
  | tick | clear => true

end Operation

def set (t : Timers) : Timer → UInt8 → Timers
  | .delay, b => t.setDelay b
  | .sound, b => t.setSound b

def apply (t : Timers) : Operation → Timers
  | .set timer b => t.set timer b
  | .tick => t.tick
  | .clear => zero

def run (t : Timers) (history : List Operation) : Timers :=
  history.foldl apply t

/-- What the timer was last set to. It is zero if it was not set, or if both timers were stopped
after that. -/
def lastWritten (timer : Timer) (history : List Operation) : UInt8 :=
  ((history.filterMap (·.written? timer)).getLast?).getD 0

/-- The ticks since the timer was last set or stopped, or since the start. -/
def ticksSince (timer : Timer) (history : List Operation) : Nat :=
  (history.rtakeWhile fun a ↦ (a.written? timer).isNone).count .tick

variable {t t' : Timers} {timer timer' : Timer} {a : Operation} {b : UInt8}

/-! ### One operation -/

@[simp] theorem get_zero (timer : Timer) : zero.get timer = 0 := by
  cases timer <;> rfl

@[simp] theorem get_set_self (t : Timers) (timer : Timer) (b : UInt8) :
    (t.set timer b).get timer = b := by
  cases timer <;> rfl

theorem get_set_of_ne (h : timer' ≠ timer) (t : Timers) (b : UInt8) :
    (t.set timer' b).get timer = t.get timer := by
  cases timer with
  | delay =>
      cases timer' with
      | delay => exact absurd rfl h
      | sound => rfl
  | sound =>
      cases timer' with
      | delay => rfl
      | sound => exact absurd rfl h

theorem get_tick (t : Timers) (timer : Timer) : t.tick.get timer = countDown (t.get timer) := by
  cases timer <;> rfl

theorem get_apply_of_written (h : a.written? timer = some b) (t : Timers) :
    (t.apply a).get timer = b := by
  cases a with
  | set timer' b' =>
      rw [Operation.written?] at h
      split at h
      · next htimer =>
        subst htimer
        rw [apply, get_set_self]
        exact Option.some.inj h
      · cases h
  | tick => cases h
  | clear =>
      rw [apply, get_zero]
      exact Option.some.inj h

/-- A timer that is neither set nor stopped counts the ticks down, and stays at zero. -/
theorem toNat_get_apply_of_not_written (h : a.written? timer = none) (t : Timers) :
    ((t.apply a).get timer).toNat = (t.get timer).toNat - if a = .tick then 1 else 0 := by
  cases a with
  | set timer' b =>
      have htimer : timer' ≠ timer := by
        rintro rfl
        simp [Operation.written?] at h
      rw [apply, get_set_of_ne htimer, if_neg (by simp), Nat.sub_zero]
  | tick => rw [apply, get_tick, toNat_countDown, if_pos rfl]
  | clear => cases h

theorem get_apply_of_not_concerns (h : a.concerns timer = false) (t : Timers) :
    (t.apply a).get timer = t.get timer := by
  cases a with
  | set timer' b =>
      rw [Operation.concerns, decide_eq_false_iff_not] at h
      rw [apply, get_set_of_ne h]
  | tick => cases h
  | clear => cases h

/-- What an operation makes of a timer does not depend on the other timer. -/
theorem get_apply_congr (h : t.get timer = t'.get timer) (a : Operation) :
    (t.apply a).get timer = (t'.apply a).get timer := by
  cases hwritten : a.written? timer with
  | some b => rw [get_apply_of_written hwritten, get_apply_of_written hwritten]
  | none =>
      rw [← UInt8.toNat_inj, toNat_get_apply_of_not_written hwritten,
        toNat_get_apply_of_not_written hwritten, h]

/-- Only setting a timer can raise it. -/
theorem set_or_get_apply_le (t : Timers) (timer : Timer) (a : Operation) :
    (∃ b, a = .set timer b) ∨ (t.apply a).get timer ≤ t.get timer := by
  cases a with
  | set timer' b =>
      by_cases htimer : timer' = timer
      · exact .inl ⟨b, by rw [htimer]⟩
      · right
        rw [apply, get_set_of_ne htimer]
        exact UInt8.le_refl _
  | tick =>
      right
      rw [UInt8.le_iff_toNat_le, toNat_get_apply_of_not_written rfl]
      exact Nat.sub_le _ _
  | clear =>
      right
      rw [apply, get_zero]
      exact UInt8.zero_le

/-! ### Histories -/

@[simp] theorem run_concat (t : Timers) (history : List Operation) (a : Operation) :
    t.run (history ++ [a]) = (t.run history).apply a := by
  simp [run]

theorem lastWritten_concat (timer : Timer) (history : List Operation) (a : Operation) :
    lastWritten timer (history ++ [a]) =
      (a.written? timer).getD (lastWritten timer history) := by
  rw [lastWritten, List.filterMap_append]
  cases h : a.written? timer <;> simp [h, lastWritten]

theorem ticksSince_concat (timer : Timer) (history : List Operation) (a : Operation) :
    ticksSince timer (history ++ [a]) =
      if a.written? timer = none then ticksSince timer history + if a = .tick then 1 else 0
      else 0 := by
  rw [ticksSince, List.rtakeWhile_concat]
  cases h : a.written? timer with
  | some b => simp
  | none => simp [ticksSince, List.count_singleton]

/-- A timer holds what it was last set to less the ticks since. -/
theorem toNat_get_run (timer : Timer) (history : List Operation) :
    ((zero.run history).get timer).toNat =
      (lastWritten timer history).toNat - ticksSince timer history := by
  induction history using List.reverseRecOn with
  | nil => simp [run, lastWritten, ticksSince]
  | append_singleton history a ih =>
      rw [run_concat, lastWritten_concat, ticksSince_concat]
      cases h : a.written? timer with
      | some b => simp [get_apply_of_written h]
      | none =>
          rw [toNat_get_apply_of_not_written h, ih, if_pos rfl, Option.getD_none, Nat.sub_sub]

theorem get_run_filter (timer : Timer) (history : List Operation) :
    (zero.run (history.filter (·.concerns timer))).get timer = (zero.run history).get timer := by
  induction history using List.reverseRecOn with
  | nil => rfl
  | append_singleton history a ih =>
      rw [List.filter_append, run_concat]
      cases h : a.concerns timer with
      | true =>
          rw [List.filter_cons_of_pos h, List.filter_nil, run_concat]
          exact get_apply_congr ih a
      | false =>
          rw [List.filter_cons_of_neg (by simp [h]), List.filter_nil, List.append_nil,
            get_apply_of_not_concerns h, ih]

/-- The whole past of new timers says what they hold. A timer holds what it was last set to, which
is nothing if both were stopped since, less the ticks since then and never less than nothing. What
the other timer was set to makes no difference, and nothing but setting a timer ever raises it. -/
theorem timers_over_history (timer : Timer) :
    (∀ history : List Operation,
      ((zero.run history).get timer).toNat =
          (lastWritten timer history).toNat - ticksSince timer history ∧
        (zero.run history).get timer = (zero.run (history.filter (·.concerns timer))).get timer) ∧
      ∀ (history : List Operation) (a : Operation), (∃ b, a = .set timer b) ∨
        (zero.run (history ++ [a])).get timer ≤ (zero.run history).get timer := by
  refine ⟨?_, ?_⟩
  · intro history
    exact ⟨toNat_get_run timer history, (get_run_filter timer history).symm⟩
  · intro history a
    rw [run_concat]
    exact set_or_get_apply_le _ timer a

/-- The second timer is set while the first one runs, and goes on when that has stopped. -/
example :
    zero.run [.set .delay 2, .tick, .set .sound 9, .tick, .tick] = ⟨0, 7⟩ := by decide

end Timers

end Chip8
