import Chip8.Proofs.State.Footprint
import Chip8.Proofs.State.Trace

/-!
# Waiting for a key press

While a register waits, nothing but timers and keys changes until a step meets a press, and that
step does no more than to hand the key over. So the keys handed over are some of the keys that went
down, in order and none of them twice, and each one is the last that went down before.
-/

namespace Chip8

namespace State

/-- The key that goes down, if the action reports a press of a key that was up. -/
def newPress? (s : State) : Action → Option Key
  | .setKey k true => if s.keypad.isDown k then none else some k
  | _ => none

/-- What the action stores, if it ends a wait. -/
def stored? (s : State) (a : Action) : Option UInt8 :=
  match s.awaiting with
  | some x => if (s.apply a).awaiting = none then some ((s.apply a).reg x) else none
  | none => none

variable {s : State} {x : Register} {k : Key} {a : Action} {history : List Action}

/-! ### During a wait -/

theorem turn_of_no_press (hwait : s.awaiting = some x) (hpress : s.keypad.pending = none) :
    s.turn = .wait x := by
  simp only [turn, hwait, hpress]

theorem turn_of_press (hwait : s.awaiting = some x) (hpress : s.keypad.pending = some k) :
    s.turn = .receive x k := by
  simp only [turn, hwait, hpress]

theorem step_of_no_press (hwait : s.awaiting = some x) (hpress : s.keypad.pending = none) :
    s.step = s := by
  rw [step, turn_of_no_press hwait hpress]

theorem step_of_press (hwait : s.awaiting = some x) (hpress : s.keypad.pending = some k) :
    s.step = s.receive x k := by
  rw [step, turn_of_press hwait hpress]

theorem apply_of_wait (hwait : s.awaiting = some x) (ha : a.inPlay)
    (hpress : a = .step → s.keypad.pending = none) :
    ∃ timers keypad, s.apply a = { s with timers, keypad } := by
  cases a with
  | step =>
      refine ⟨s.timers, s.keypad, ?_⟩
      exact step_of_no_press hwait (hpress rfl)
  | tick => exact ⟨s.timers.tick, s.keypad, rfl⟩
  | setKey k isDown => exact ⟨s.timers, s.keypad.set k isDown, rfl⟩
  | _ => simp [Action.inPlay] at ha

/-- Until a step meets a press, only timers and keys change during a wait. -/
theorem run_of_wait (hwait : s.awaiting = some x) (hplay : ∀ a ∈ history, a.inPlay)
    (hpress : ∀ e ∈ s.trace history, e.2 = .step → e.1.keypad.pending = none) :
    ∃ timers keypad, s.run history = { s with timers, keypad } := by
  induction history generalizing s with
  | nil => exact ⟨s.timers, s.keypad, rfl⟩
  | cons a history ih =>
      rw [List.forall_mem_cons] at hplay
      rw [trace, List.forall_mem_cons] at hpress
      obtain ⟨timers, keypad, ha⟩ := apply_of_wait hwait hplay.1 hpress.1
      have hwait' : (s.apply a).awaiting = some x := by rw [ha]; exact hwait
      obtain ⟨timers', keypad', hrun⟩ := ih hwait' hplay.2 hpress.2
      refine ⟨timers', keypad', ?_⟩
      rw [run_cons, hrun, ha]

/-! ### Keys handed over -/

theorem pending_setKey (s : State) (k : Key) (isDown : Bool) :
    (s.apply (.setKey k isDown)).keypad.pending =
      (s.newPress? (.setKey k isDown)).or s.keypad.pending := by
  cases isDown with
  | false => rfl
  | true =>
      simp only [apply, setKey, Keypad.set, newPress?, Bool.true_and]
      cases s.keypad.isDown k <;> rfl

theorem keypad_step_of_not_awaiting (h : s.awaiting = none) : s.step.keypad = s.keypad := by
  obtain ⟨ins, -, hturn⟩ | ⟨e, -, hturn⟩ := turn_of_not_awaiting h
  · exact (footprint_of_performed? (performed?_eq_some.2 (.inl ⟨rfl, hturn⟩))).keypad
  · rw [step, hturn]
    rfl

/-- What an action in play does to the pending press: a step that ends a wait hands it over, and
whatever else happens, a key that goes down takes its place. -/
theorem pending_cases (ha : a.inPlay) :
    (s.stored? a = none ∧
        (s.apply a).keypad.pending = (s.newPress? a).or s.keypad.pending) ∨
      ∃ k, s.keypad.pending = some k ∧ s.stored? a = some (UInt8.ofNat k.val) ∧
        s.newPress? a = none ∧ (s.apply a).keypad.pending = none := by
  cases hwait : s.awaiting with
  | none =>
      refine .inl ⟨by simp only [stored?, hwait], ?_⟩
      cases a with
      | step => exact congrArg Keypad.pending (keypad_step_of_not_awaiting hwait)
      | tick => rfl
      | setKey k isDown => exact s.pending_setKey k isDown
      | _ => simp [Action.inPlay] at ha
  | some x =>
      cases a with
      | step =>
          cases hpress : s.keypad.pending with
          | none =>
              have hstep := step_of_no_press hwait hpress
              refine .inl ⟨?_, ?_⟩
              · simp [stored?, apply, hstep, hwait]
              · rw [apply, hstep, hpress]
                rfl
          | some k =>
              have hstep := step_of_press hwait hpress
              refine .inr ⟨k, rfl, ?_, rfl, ?_⟩
              · simp [stored?, apply, hstep, hwait, receive, setReg, reg]
              · rw [apply, hstep]
                rfl
      | tick => exact .inl ⟨by simp [stored?, apply, tick, hwait], rfl⟩
      | setKey k isDown =>
          exact .inl ⟨by simp [stored?, apply, setKey, hwait], s.pending_setKey k isDown⟩
      | _ => simp [Action.inPlay] at ha

theorem stored_sublist (hplay : ∀ a ∈ history, a.inPlay) :
    (s.collect stored? history).Sublist
      ((s.keypad.pending.toList ++ s.collect newPress? history).map fun k ↦ UInt8.ofNat k.val) := by
  induction history generalizing s with
  | nil => exact List.nil_sublist _
  | cons a history ih =>
      rw [List.forall_mem_cons] at hplay
      have hrest := ih (s := s.apply a) hplay.2
      rw [collect_cons, collect_cons]
      obtain ⟨hstored, hpending⟩ | ⟨k, hpress, hstored, hnone, hpending⟩ := pending_cases hplay.1
      · rw [hpending] at hrest
        rw [hstored, ← List.append_assoc]
        refine hrest.trans (List.Sublist.map _ (List.Sublist.append_right ?_ _))
        cases s.newPress? a with
        | none => simp
        | some k => simp
      · rw [hpending] at hrest
        rw [hstored, hpress, hnone]
        exact hrest.cons_cons _

theorem last_press_of_pending (hplay : ∀ a ∈ history, a.inPlay)
    (h : (s.run history).keypad.pending = some k) :
    (s.collect newPress? history).getLast?.or s.keypad.pending = some k := by
  induction history generalizing s with
  | nil => exact h
  | cons a history ih =>
      rw [List.forall_mem_cons] at hplay
      have hrest := ih (s := s.apply a) hplay.2 h
      rw [collect_cons, List.getLast?_append, Option.or_assoc]
      obtain ⟨-, hpending⟩ | ⟨k', -, -, -, hpending⟩ := pending_cases (s := s) hplay.1
      · rw [hpending] at hrest
        cases hnew : s.newPress? a with
        | none => simpa [hnew] using hrest
        | some k' => simpa [hnew] using hrest
      · rw [hpending, Option.or_none] at hrest
        rw [hrest]
        rfl

theorem press_of_stored (ha : a.inPlay) (h : (s.stored? a).isSome) :
    ∃ k, s.keypad.pending = some k ∧ s.stored? a = some (UInt8.ofNat k.val) ∧
      s.newPress? a = none ∧ (s.apply a).keypad.pending = none := by
  obtain ⟨hnone, -⟩ | hstored := pending_cases (s := s) ha
  · simp [hnone] at h
  · exact hstored

/-- Between two keys handed over a key goes down. -/
theorem press_between {past between : List Action} {b : Action}
    (ha : a.inPlay) (hplay : ∀ c ∈ between, c.inPlay) (hb : b.inPlay)
    (hfirst : ((s.run past).stored? a).isSome)
    (hsecond : ((s.run (past ++ a :: between)).stored? b).isSome) :
    (s.collect newPress? past).length < (s.collect newPress? (past ++ a :: between)).length := by
  obtain ⟨-, -, -, hnone, htaken⟩ := press_of_stored ha hfirst
  obtain ⟨k, hpress, -, -, -⟩ := press_of_stored hb hsecond
  rw [run_append, run_cons] at hpress
  have hlast := last_press_of_pending hplay hpress
  rw [htaken, Option.or_none] at hlast
  have hpos : 0 < (((s.run past).apply a).collect newPress? between).length := by
    rw [List.length_pos_iff]
    intro hempty
    rw [hempty] at hlast
    cases hlast
  rw [collect_append, collect_cons, hnone, List.length_append]
  exact Nat.lt_add_of_pos_right hpos

/-- Until a step meets a press, a wait leaves everything but timers and keys as it is, and that step
stores the key, ends the wait and does nothing else. Over a whole run in play that starts without a
pending press, as a new machine does, the keys stored are some of the keys that went down, in order:
each is the last one that went down so far, and from one to the next the count of keys that went
down grows, so none is stored twice. -/
theorem key_wait_protocol :
    (∀ (s : State) (x : Register) (history : List Action), s.awaiting = some x →
      (∀ a ∈ history, a.inPlay) →
      (∀ e ∈ s.trace history, e.2 = .step → e.1.keypad.pending = none) →
      let t := s.run history
      t = { s with timers := t.timers, keypad := t.keypad } ∧
        ∀ k, t.keypad.pending = some k →
          t.step =
            { s.setReg x (UInt8.ofNat k.val) with
              timers := t.timers
              keypad := { t.keypad with pending := none }
              awaiting := none }) ∧
      ∀ (s : State) (history : List Action), s.keypad.pending = none →
        (∀ a ∈ history, a.inPlay) →
        (s.collect stored? history).Sublist
            ((s.collect newPress? history).map fun k ↦ UInt8.ofNat k.val) ∧
          (∀ past a later b, history = past ++ a :: later → (s.run past).stored? a = some b →
            ∃ k, (s.collect newPress? past).getLast? = some k ∧ b = UInt8.ofNat k.val) ∧
          ∀ past a between b later, history = past ++ a :: between ++ b :: later →
            ((s.run past).stored? a).isSome →
            ((s.run (past ++ a :: between)).stored? b).isSome →
            (s.collect newPress? past).length <
              (s.collect newPress? (past ++ a :: between)).length := by
  refine ⟨?_, ?_⟩
  · intro s x history hwait hplay hpress t
    obtain ⟨timers, keypad, hrun⟩ := run_of_wait hwait hplay hpress
    have ht : t = { s with timers, keypad } := hrun
    refine ⟨by rw [ht], ?_⟩
    intro k hk
    have hwait' : t.awaiting = some x := by rw [ht]; exact hwait
    rw [step_of_press hwait' hk, ht]
    rfl
  · intro s history hempty hplay
    refine ⟨?_, ?_, ?_⟩
    · have hsublist := stored_sublist (s := s) hplay
      rwa [hempty] at hsublist
    · rintro past a later b rfl hstored
      rw [List.forall_mem_append, List.forall_mem_cons] at hplay
      have hsome : ((s.run past).stored? a).isSome := by rw [hstored]; rfl
      obtain ⟨k, hpress, hb, -, -⟩ := press_of_stored hplay.2.1 hsome
      have hlast := last_press_of_pending hplay.1 hpress
      rw [hempty, Option.or_none] at hlast
      rw [hstored, Option.some.injEq] at hb
      exact ⟨k, hlast, hb⟩
    · rintro past a between b later rfl hfirst hsecond
      rw [List.forall_mem_append, List.forall_mem_append, List.forall_mem_cons,
        List.forall_mem_cons] at hplay
      exact press_between hplay.1.2.1 hplay.1.2.2 hplay.2.1 hfirst hsecond

/-- A press from before the first wait ends it, and in the second one the last of two presses
counts. -/
theorem key_wait_over_two_waits :
    let s : State :=
      { initial .fixed with
        memory := (⟨.replicate 0x1000 0⟩ : Memory).writeList 0x200 [0xF3, 0x0A, 0xF4, 0x0A] }
    let history := [.setKey (Key.ofNat 5) true, .step, .step, .step, .setKey (Key.ofNat 7) true,
      .setKey (Key.ofNat 9) true, .setKey (Key.ofNat 9) false, .tick, .step]
    let waiting := s.run (history.take 4)
    let later := waiting.run [.tick, .step]
    (s.collect stored? history).Sublist
        ((s.collect newPress? history).map fun k ↦ UInt8.ofNat k.val) ∧
      s.collect stored? history = [5, 9] ∧ s.collect newPress? history = [5, 7, 9].map Key.ofNat ∧
      waiting.awaiting = some (Register.ofByte 4) ∧
      later = { waiting with timers := later.timers, keypad := later.keypad } := by
  intro s history waiting later
  have hplay : ∀ a ∈ history, a.inPlay := by decide
  have hwait : waiting.awaiting = some (Register.ofByte 4) := by decide +kernel
  have hpress : ∀ e ∈ waiting.trace [.tick, .step], e.2 = .step → e.1.keypad.pending = none := by
    decide +kernel
  exact ⟨(key_wait_protocol.2 s history rfl hplay).1, by decide +kernel, by decide +kernel, hwait,
    (key_wait_protocol.1 waiting _ [.tick, .step] hwait (by decide) hpress).1⟩

end State

end Chip8
