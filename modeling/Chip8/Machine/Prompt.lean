import Chip8.Machine.Pace

/-!
# A host that is on time

Both workers begin at once, and each looks at its clock within a millisecond of every tick. Neither
clock ticks more than once in a millisecond, so no tick is dropped.
-/

namespace Chip8

theorem Clock.dueTime_le_iff {c : Clock} (h : 0 < c.frequency.toNat) {last time : Nat} :
    c.dueTime last ≤ time ↔ last < c.ticks time := by
  rw [dueTime, ticks, Nat.lt_iff_add_one_le, Nat.le_div_iff_mul_le (by decide),
    ← Nat.lt_succ_iff, Nat.div_lt_iff_lt_mul h, Nat.succ_mul time]
  omega

namespace Pacing

variable {p : Pacing} {w : Worker} {last wakes more time : Nat}

theorem run?_append (p : Pacing) (moments later : List Moment) :
    p.run? (moments ++ later) = (p.run? moments).bind fun next ↦ next.run? later := by
  induction moments generalizing p with
  | nil => rfl
  | cons a moments ih =>
      rw [List.cons_append, run?, run?, Option.bind_assoc]
      exact Option.bind_congr fun next _ ↦ ih next

@[simp] theorem cycle_change_self (p : Pacing) (now : Nat) (w : Worker) (cycle : Cycle) :
    (p.change now w cycle).cycle w = cycle := if_pos rfl

theorem cycle_change_of_ne {other : Worker} (h : other ≠ w) (p : Pacing) (now : Nat)
    (cycle : Cycle) : (p.change now w cycle).cycle other = p.cycle other := if_neg h

theorem next?_look (hw : p.cycle w = .asleep last wakes) (hnow : p.now ≤ time)
    (hwakes : wakes ≤ time) :
    p.next? ⟨w, .look time⟩ = some (p.change time w
      (.withDue w.clock (w.clock.ticks time) (min (w.clock.ticks time - last) maxCatchUp))) := by
  simp [next?, Act.time?, hw, Cycle.next?, Nat.not_lt.2 hnow, hwakes]

theorem next?_turn (hw : p.cycle w = .atWork last more) :
    p.next? ⟨w, .turn⟩ = some (p.change p.now w (.withDue w.clock last more)) := by
  simp [next?, Act.time?, hw, Cycle.next?]

end Pacing

namespace Worker

/-- How often the clock of a worker has ticked after some milliseconds. -/
def ticksBy (w : Worker) (milliseconds : Nat) : Nat :=
  w.clock.ticks (milliseconds * 1000000)

/-- What a worker does in the millisecond that comes after `k` others. -/
def promptly (w : Worker) (k : Nat) : List Moment :=
  if w.ticksBy k < w.ticksBy (k + 1) then [⟨w, .look ((k + 1) * 1000000)⟩, ⟨w, .turn⟩] else []

/-- Asleep, with all ticks of the first milliseconds noticed. -/
def caughtUp (w : Worker) (milliseconds : Nat) : Cycle :=
  .asleep (w.ticksBy milliseconds) (w.clock.dueTime (w.ticksBy milliseconds))

variable (w : Worker) (k : Nat)

theorem ticksBy_le_succ : w.ticksBy k ≤ w.ticksBy (k + 1) :=
  Nat.div_le_div_right (Nat.mul_le_mul_right _ (Nat.mul_le_mul_right _ (Nat.le_succ k)))

theorem ticksBy_succ_le : w.ticksBy (k + 1) ≤ w.ticksBy k + 1 := by
  have hstep (f : Nat) (hf : f ≤ 1000) :
      (k + 1) * 1000000 * f / 1000000000 ≤ k * 1000000 * f / 1000000000 + 1 := by
    rw [← Nat.add_div_right _ (by decide)]
    refine Nat.div_le_div_right ?_
    rw [Nat.add_mul, Nat.add_mul]
    omega
  cases w with
  | instructions => exact hstep 500 (by decide)
  | timers => exact hstep 60 (by decide)

theorem frequency_pos : 0 < w.clock.frequency.toNat := by
  cases w <;> decide

end Worker

namespace Pacing

variable {p : Pacing} {w : Worker} {k : Nat}

/-- One worker goes through one millisecond, and the other one sleeps on. -/
theorem run?_promptly (hnow : p.now ≤ (k + 1) * 1000000) (hw : p.cycle w = w.caughtUp k) :
    ∃ next, p.run? (w.promptly k) = some next ∧ next.now ≤ (k + 1) * 1000000 ∧
      next.cycle w = w.caughtUp (k + 1) ∧ ∀ other ≠ w, next.cycle other = p.cycle other := by
  have hmono := w.ticksBy_le_succ k
  rw [Worker.promptly]
  split
  · next htick =>
    have hone : w.ticksBy (k + 1) - w.ticksBy k = 1 := by
      have := w.ticksBy_succ_le k
      omega
    let awake := p.change ((k + 1) * 1000000) w (.atWork (w.ticksBy (k + 1)) 0)
    have hlook : p.next? ⟨w, .look ((k + 1) * 1000000)⟩ = some awake := by
      rw [next?_look hw hnow ((Clock.dueTime_le_iff w.frequency_pos).2 htick), ← Worker.ticksBy,
        hone]
      rfl
    have hturn : awake.next? ⟨w, .turn⟩ =
        some (awake.change ((k + 1) * 1000000) w (w.caughtUp (k + 1))) :=
      next?_turn (cycle_change_self _ _ _ _)
    refine ⟨awake.change ((k + 1) * 1000000) w (w.caughtUp (k + 1)), ?_, Nat.le_refl _,
      cycle_change_self _ _ _ _, fun other hother ↦ ?_⟩
    · rw [run?, hlook, Option.bind_some, run?, hturn]
      rfl
    · rw [cycle_change_of_ne hother, cycle_change_of_ne hother]
  · next hnone =>
    have hsame : w.ticksBy (k + 1) = w.ticksBy k := by omega
    refine ⟨p, rfl, hnow, ?_, fun other _ ↦ rfl⟩
    rw [hw, Worker.caughtUp, Worker.caughtUp, hsame]

/-- Both workers know of every tick of the first milliseconds. -/
structure IsOnTime (p : Pacing) (milliseconds : Nat) : Prop where
  now : p.now ≤ milliseconds * 1000000
  cycle : ∀ w : Worker, p.cycle w = w.caughtUp milliseconds

theorem IsOnTime.isQuiet (h : p.IsOnTime k) : p.IsQuiet := by
  intro w last more hwork
  rw [h.cycle w] at hwork
  cases hwork

end Pacing

namespace Schedule

def beginning : List Moment :=
  [⟨.instructions, .enter 0⟩, ⟨.instructions, .look 0⟩, ⟨.timers, .enter 0⟩, ⟨.timers, .look 0⟩]

def promptMoments (milliseconds : Nat) : List Moment :=
  beginning ++ (List.range milliseconds).flatMap fun k ↦
    Worker.promptly .instructions k ++ Worker.promptly .timers k

theorem promptMoments_succ (k : Nat) :
    promptMoments (k + 1) = promptMoments k ++
      (Worker.promptly .instructions k ++ Worker.promptly .timers k) := by
  rw [promptMoments, promptMoments, List.range_succ, List.flatMap_append, List.flatMap_singleton,
    List.append_assoc]

theorem run?_beginning : ∃ p, Pacing.initial.run? beginning = some p ∧ p.IsOnTime 0 := by
  refine ⟨_, rfl, Nat.le_refl 0, fun w ↦ ?_⟩
  cases w <;> rfl

theorem run?_promptMoments (milliseconds : Nat) :
    ∃ p, Pacing.initial.run? (promptMoments milliseconds) = some p ∧ p.IsOnTime milliseconds := by
  induction milliseconds with
  | zero => exact run?_beginning
  | succ k ih =>
      obtain ⟨p, hrun, hontime⟩ := ih
      have hle : k * 1000000 ≤ (k + 1) * 1000000 := Nat.mul_le_mul_right _ (Nat.le_succ k)
      obtain ⟨mid, hmid, hmidNow, hmidSelf, hmidOther⟩ :=
        Pacing.run?_promptly (Nat.le_trans hontime.now hle) (hontime.cycle .instructions)
      have htimers : mid.cycle .timers = Worker.caughtUp .timers k := by
        rw [hmidOther .timers (by decide), hontime.cycle]
      obtain ⟨next, hnext, hnow, hself, hother⟩ := Pacing.run?_promptly hmidNow htimers
      refine ⟨next, ?_, hnow, fun w ↦ ?_⟩
      · rw [promptMoments_succ, Pacing.run?_append, hrun, Option.bind_some, Pacing.run?_append,
          hmid, Option.bind_some, hnext]
      · cases w with
        | instructions => rw [hother .instructions (by decide), hmidSelf]
        | timers => exact hself

/-- The schedule of a run of some milliseconds on a host that is on time. -/
def prompt (milliseconds : Nat) : Schedule where
  moments := promptMoments milliseconds
  possible := by
    obtain ⟨p, hrun, hontime⟩ := run?_promptMoments milliseconds
    exact ⟨p, hrun, hontime.isQuiet⟩

end Schedule

end Chip8
