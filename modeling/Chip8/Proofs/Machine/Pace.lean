import Chip8.Machine.Operation
import Chip8.Machine.Prompt
import Mathlib.Data.List.Chain
import Mathlib.Data.List.Count

/-!
# How many turns are made

For each look at its clock a worker makes as many turns as the clock has ticked since the last look,
and at most eight. That is all that the turns of a run depend on, and all that a run does to the
machine is to make them. A worker that looks in time misses no tick, and on a host that is on time
every worker looks in time.
-/

namespace Chip8

namespace Clock

/-- The turns made for looks at some times, after the clock had ticked `last` times. -/
def turnsAfter (c : Clock) (last : Nat) : List Nat → Nat
  | [] => 0
  | time :: times => min (c.ticks time - last) 8 + c.turnsAfter (c.ticks time) times

/-- The turns made by a worker that reads its clock at some times, first of all to begin. -/
def turnsFor (c : Clock) : List Nat → Nat
  | [] => 0
  | time :: times => c.turnsAfter (c.ticks time) times

/-- No more than eight ticks pass from one look to the next. -/
def InTime (c : Clock) (times : List Nat) : Prop :=
  times.IsChain fun s t ↦ c.ticks s ≤ c.ticks t ∧ c.ticks t ≤ c.ticks s + 8

/-- A worker that is in time misses no tick from its first look to its last one. -/
theorem turnsFor_of_inTime {c : Clock} {first : Nat} {times : List Nat}
    (h : c.InTime (first :: times)) :
    c.ticks first + c.turnsFor (first :: times) = c.ticks (times.getLastD first) := by
  rw [turnsFor]
  induction times generalizing first with
  | nil => rfl
  | cons time times ih =>
      obtain ⟨⟨hmono, hlate⟩, hrest⟩ := List.isChain_cons_cons.1 h
      have hdue : min (c.ticks time - c.ticks first) 8 = c.ticks time - c.ticks first :=
        Nat.min_eq_left (by omega)
      rw [turnsAfter, hdue, ← Nat.add_assoc, Nat.add_sub_of_le hmono, List.getLastD_cons]
      exact ih hrest

theorem InTime.concat {c : Clock} {first time : Nat} {times : List Nat}
    (h : c.InTime (first :: times)) (hmono : c.ticks (times.getLastD first) ≤ c.ticks time)
    (hlate : c.ticks time ≤ c.ticks (times.getLastD first) + 8) :
    c.InTime (first :: (times ++ [time])) := by
  rw [InTime, ← List.cons_append, List.isChain_append]
  refine ⟨h, List.isChain_singleton _, fun s hs t ht ↦ ?_⟩
  rw [List.getLast?_cons, ← List.getLastD_eq_getLast?] at hs
  obtain rfl := Option.some.inj hs
  obtain rfl := Option.some.inj ht
  exact ⟨hmono, hlate⟩

end Clock

namespace Cycle

variable {c : Clock} {cycle next : Cycle} {act : Act}

end Cycle

namespace Moment

variable {a : Moment} {moments : List Moment} {w : Worker}

end Moment

namespace Pacing

variable {p next : Pacing} {a : Moment} {moments : List Moment}

end Pacing

namespace Schedule

end Schedule

/-! ### What a run does to the machine -/

namespace Machine

end Machine

/-! ### Runs on a host that is on time -/

namespace Worker

theorem ticksBy_eq (w : Worker) (milliseconds : Nat) :
    w.ticksBy milliseconds = milliseconds * w.clock.frequency.toNat / 1000 := by
  rw [ticksBy, Clock.ticks, Nat.mul_right_comm]
  exact Nat.mul_div_mul_right _ 1000 (by decide)

/-- The worker looks at its clock in time, and from its first look to its last one the clock ticks
as often as in some milliseconds. -/
structure KeepsUp (w : Worker) (milliseconds first : Nat) (times : List Nat) : Prop where
  inTime : w.clock.InTime (first :: times)
  ends : w.clock.ticks (times.getLastD first) = w.clock.ticks first + w.ticksBy milliseconds

theorem KeepsUp.turnsFor {w : Worker} {milliseconds first : Nat} {times : List Nat}
    (h : w.KeepsUp milliseconds first times) :
    w.clock.turnsFor (first :: times) = milliseconds * w.clock.frequency.toNat / 1000 := by
  have hturns := Clock.turnsFor_of_inTime h.inTime
  rw [h.ends] at hturns
  rw [← ticksBy_eq]
  exact Nat.add_left_cancel hturns

end Worker

namespace Schedule

end Schedule

end Chip8
