import Chip8.Proofs.Machine.Load
import Mathlib.Data.List.Basic
import Mathlib.Data.List.Induction

/-!
# The life of a machine

A machine runs from a start to the next stop, and only then has it workers. A call that asks for
what is so already changes nothing. While the machine stands still, its state is left to the client.
-/

namespace Chip8

namespace Machine

/-- Whether the operation switches the machine on or off. -/
def Operation.isSwitch : Operation → Bool
  | .start | .stop => true
  | _ => false

/-- What a call of the client does to the state of a machine that does not run. -/
def Operation.action? : Operation → Option Action
  | .load program => some (.load program)
  | .loadFrom source =>
    match source.failure? with
    | none => some (.load source.bytes)
    | some _ => none
  | .setKey k isDown => some (.setKey k isDown)
  | .reset => some .reset
  | .start | .stop | .snapshot | .turn _ => none

/-- A start of a machine that runs, or a stop of one that does not. -/
def isRedundant (m : Machine) : Operation → Bool
  | .start => m.running
  | .stop => !m.running
  | _ => false

/-- The history without its redundant calls. -/
def withoutRedundant (m : Machine) : List Operation → List Operation
  | [] => []
  | a :: history =>
    if m.isRedundant a then (m.apply a).withoutRedundant history
    else a :: (m.apply a).withoutRedundant history

/-- Each cycle of a running machine has its worker, and a stopped machine has none. -/
def Staffed (m : Machine) : Prop :=
  m.workers = if m.running then [.instructions, .timers] else []

variable {m : Machine} {a : Operation} {history : List Operation}

/-! ### One operation -/

theorem apply_load (m : Machine) (program : List UInt8) :
    m.apply (.load program) = { m with state := m.state.apply (.load program) } := by
  simp only [apply, load, State.apply]
  cases m.state.load program <;> rfl

theorem apply_loadFrom_of_fails {source : Source} {reason : String}
    (h : source.failure? = some reason) : m.apply (.loadFrom source) = m := by
  rw [apply, m.loadFrom_of_fails h]

theorem reset_eq_error (m : Machine) (e : RunningError) :
    m.reset = .error e ↔ m.running = true := by
  unfold reset
  cases m.running <;> simp

theorem apply_reset_of_running (h : m.running = true) : m.apply .reset = m := by
  simp [apply, (m.reset_eq_error {}).2 h]

/-- Nothing but a start and a stop touches the switch and the workers. -/
theorem apply_of_not_isSwitch (h : a.isSwitch = false) :
    m.apply a = { m with state := (m.apply a).state } := by
  cases a with
  | load program => simp only [apply_load]
  | loadFrom source =>
      cases hend : source.failure? with
      | none => simp only [apply_loadFrom_of_ends m hend, apply_load]
      | some reason => simp only [apply_loadFrom_of_fails hend]
  | start => simp [Operation.isSwitch] at h
  | stop => simp [Operation.isSwitch] at h
  | reset =>
      by_cases hrunning : m.running = true
      · rw [apply_reset_of_running hrunning]
      · simp [apply, reset, hrunning]
  | turn worker =>
      simp only [apply, turn]
      cases worker <;> split <;> rfl
  | _ => rfl

theorem running_start (m : Machine) : m.start.running = true := by
  unfold start
  split
  · assumption
  · rfl

theorem start_of_running (h : m.running = true) : m.start = m := by
  simp [start, h]

/-- The workers are not at work, so there is nobody to send away. -/
theorem stop_of_stopped (hstaffed : m.Staffed) (h : m.running = false) : m.stop = m := by
  have hworkers : m.workers = [] := by simpa [Staffed, h] using hstaffed
  ext <;> simp [stop, h, hworkers]

theorem Staffed.apply (h : m.Staffed) (a : Operation) : (m.apply a).Staffed := by
  cases a with
  | start =>
      cases hrunning : m.running with
      | true => simpa [Machine.apply, start_of_running hrunning] using h
      | false =>
          have hworkers : m.workers = [] := by simpa [Staffed, hrunning] using h
          simp [Machine.apply, start, Staffed, hrunning, hworkers]
  | stop => rfl
  | _ =>
      rw [apply_of_not_isSwitch rfl]
      exact h

theorem apply_of_isRedundant (hstaffed : m.Staffed) (h : m.isRedundant a = true) :
    m.apply a = m := by
  cases a with
  | start => exact start_of_running h
  | stop => exact stop_of_stopped hstaffed (by simpa [isRedundant] using h)
  | _ => simp [isRedundant] at h

/-- To the state of a machine that does not run, an operation does what the client asks for and no
more. -/
theorem state_apply_of_stopped (h : m.running = false) (a : Operation) :
    (m.apply a).state = m.state.run a.action?.toList := by
  cases a with
  | load program => simp [apply_load, Operation.action?]
  | loadFrom source =>
      cases hend : source.failure? with
      | none => simp [apply_loadFrom_of_ends m hend, apply_load, Operation.action?, hend]
      | some reason => simp [apply_loadFrom_of_fails hend, Operation.action?, hend]
  | start => simp [apply, start, h, Operation.action?]
  | reset => simp [apply, reset, h, Operation.action?, State.apply]
  | turn worker => simp [apply, turn, h, Operation.action?]
  | _ => rfl

/-! ### A history -/

theorem Staffed.run (h : m.Staffed) (history : List Operation) : (m.run history).Staffed := by
  induction history generalizing m with
  | nil => exact h
  | cons a history ih => exact ih (h.apply a)

theorem running_run (rng : XorShift) (history : List Operation) :
    ((initial rng).run history).running = true ↔
      (history.filter Operation.isSwitch).getLast? = some .start := by
  induction history using List.reverseRecOn with
  | nil => simp [initial]
  | append_singleton history a ih =>
      rw [run_append, run_cons, run_nil, List.filter_append]
      cases a with
      | start => simp [apply, running_start, Operation.isSwitch]
      | stop => simp [apply, stop, Operation.isSwitch]
      | _ =>
          rw [apply_of_not_isSwitch rfl]
          simpa [Operation.isSwitch] using ih

theorem running_apply_of_stopped (h : m.running = false) (ha : a ≠ .start) :
    (m.apply a).running = false := by
  cases a with
  | start => exact absurd rfl ha
  | stop => rfl
  | _ =>
      rw [apply_of_not_isSwitch rfl]
      exact h

/-- Without a start the machine stays stopped, and its state is what the client makes of it. -/
theorem state_run_of_stopped (h : m.running = false) (hstart : .start ∉ history) :
    (m.run history).state = m.state.run (history.filterMap Operation.action?) := by
  induction history generalizing m with
  | nil => rfl
  | cons a history ih =>
      obtain ⟨ha, hlater⟩ := List.ne_and_not_mem_of_not_mem_cons hstart
      rw [List.filterMap_eq_flatMap_toList, List.flatMap_cons, State.run_append,
        ← state_apply_of_stopped h, ← List.filterMap_eq_flatMap_toList, run_cons]
      exact ih (running_apply_of_stopped h ha.symm) hlater

theorem withoutRedundant_append (m : Machine) (history later : List Operation) :
    m.withoutRedundant (history ++ later) =
      m.withoutRedundant history ++ (m.run history).withoutRedundant later := by
  induction history generalizing m with
  | nil => rfl
  | cons a history ih =>
      rw [List.cons_append, withoutRedundant, withoutRedundant, ih, run_cons]
      split <;> rfl

theorem run_withoutRedundant (h : m.Staffed) (history : List Operation) :
    m.run (m.withoutRedundant history) = m.run history := by
  induction history generalizing m with
  | nil => rfl
  | cons a history ih =>
      -- The rest of the history is looked at after `a`, whether or not `a` itself is left out.
      rw [withoutRedundant, run_cons, ← ih (h.apply a)]
      split
      · next hredundant => rw [apply_of_isRedundant h hredundant]
      · rfl

/-- A machine runs if and only if the last start or stop was a start, and it has both workers if it
runs and none otherwise. A start of a machine that runs and a stop of one that does not change
nothing, so the machine goes through the same states without such calls. A reset fails if and only
if the machine runs, and changes nothing then. From a stop to the next start the state is what the
calls of the client make of it, whatever turns of the cycles are asked for in between. -/
theorem runs_from_start_to_stop (rng : XorShift) (history : List Operation) :
    let fresh := initial rng
    let m := fresh.run history
    (m.running = true ↔ (history.filter Operation.isSwitch).getLast? = some .start) ∧
      m.workers = (if m.running then [.instructions, .timers] else []) ∧
      (m.running = true → m.start = m) ∧
      (m.running = false → m.stop = m) ∧
      (∀ past, past <+: history →
        fresh.withoutRedundant past <+: fresh.withoutRedundant history ∧
          fresh.run (fresh.withoutRedundant past) = fresh.run past) ∧
      (m.reset = .error {} ↔ m.running = true) ∧
      (m.running = true → m.apply .reset = m) ∧
      ∀ past later, history = past ++ .stop :: later → .start ∉ later →
        m.state = (fresh.run past).state.run (later.filterMap Operation.action?) := by
  intro fresh m
  have hfresh : fresh.Staffed := rfl
  have hstaffed : m.Staffed := hfresh.run history
  refine ⟨running_run rng history, hstaffed, start_of_running, stop_of_stopped hstaffed, ?_,
    m.reset_eq_error {}, apply_reset_of_running, ?_⟩
  · rintro past ⟨later, rfl⟩
    refine ⟨?_, run_withoutRedundant hfresh past⟩
    rw [withoutRedundant_append]
    exact List.prefix_append _ _
  · intro past later hhistory hstart
    have hstop : m = (fresh.run past).stop.run later := by
      simp only [m, hhistory, run_append, run_cons, apply]
    rw [hstop]
    exact state_run_of_stopped rfl hstart

end Machine

end Chip8
