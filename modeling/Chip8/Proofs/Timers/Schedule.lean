import Chip8.Proofs.Timers.Use
import Mathlib.Data.List.DropRight
import Mathlib.Data.List.Induction

/-!
# Schedules of ticks

Two runs with the same steps and reports of keys, but other ticks between them, agree on everything
but the timers for as long as no instruction reads a timer. Each timer agrees as well if the ticks
since it was last set are as many in both.
-/

namespace Chip8

namespace State

/-- The value that the action sets the timer to by an instruction. -/
def setsTimer? (timer : Timer) (s : State) (a : Action) : Option UInt8 :=
  (s.performed? a).bind fun ins ↦ (ins.timerSource? timer).map s.reg

/-- The ticks since an instruction last set the timer, or since the start. -/
def ticksSinceSet (timer : Timer) (s : State) (history : List Action) : Nat :=
  ((s.trace history).rtakeWhile fun e ↦ (e.1.setsTimer? timer e.2).isNone).countP
    fun e ↦ e.2 = .tick

variable {s t : State} {a : Action} {history history' : List Action} {timer : Timer}

/-! ### Timers over one run -/

theorem get_timersAfter (s : State) (timers : Timers) (ins : Instruction) :
    (s.timersAfter timers ins).get timer =
      ((ins.timerSource? timer).map s.reg).getD (timers.get timer) := by
  cases ins with
  | setDelay x => cases timer <;> rfl
  | setSound x => cases timer <;> rfl
  | _ => rfl

theorem get_timers_apply (ha : a.inPlay) (htick : a ≠ .tick) :
    (s.apply a).timers.get timer = (s.setsTimer? timer a).getD (s.timers.get timer) := by
  rw [timers_apply ha, setsTimer?]
  cases hins : s.performed? a with
  | none => rw [timersThrough_of_not_performed? htick hins]; rfl
  | some ins => rw [timersThrough_of_performed? hins, get_timersAfter]; rfl

theorem get_timers_tick (s : State) :
    ((s.apply .tick).timers.get timer).toNat = (s.timers.get timer).toNat - 1 := by
  cases timer <;> exact Timers.toNat_countDown _

theorem ticksSinceSet_concat :
    s.ticksSinceSet timer (history ++ [a]) =
      if (s.run history).setsTimer? timer a = none then
        s.ticksSinceSet timer history + if a = .tick then 1 else 0
      else 0 := by
  rw [ticksSinceSet, trace_append, trace, trace, List.rtakeWhile_concat]
  by_cases hnone : (s.run history).setsTimer? timer a = none
  · rw [if_pos (by rw [hnone]; rfl), if_pos hnone, List.countP_append, List.countP_singleton]
    simp only [ticksSinceSet, decide_eq_true_eq]
  · rw [if_neg (by simpa using hnone), if_neg hnone]
    rfl

/-- A timer holds what it was last set to less the ticks since then, and never less than nothing. -/
theorem get_timers_run (hplay : ∀ a ∈ history, a.inPlay) :
    ((s.run history).timers.get timer).toNat =
      ((s.collect (setsTimer? timer) history).getLast?.getD (s.timers.get timer)).toNat -
        s.ticksSinceSet timer history := by
  induction history using List.reverseRecOn with
  | nil => rfl
  | append_singleton history a ih =>
      rw [List.forall_mem_append, List.forall_mem_singleton] at hplay
      have hbefore := ih hplay.1
      rw [run_append, run_cons, run_nil, collect_append, collect_cons, collect_nil, List.append_nil,
        ticksSinceSet_concat]
      cases hset : (s.run history).setsTimer? timer a with
      | some b =>
          have htick : a ≠ .tick := by
            rintro rfl
            cases hset
          rw [get_timers_apply hplay.2 htick, hset]
          simp
      | none =>
          rw [Option.toList_none, List.append_nil, if_pos rfl]
          by_cases htick : a = .tick
          · subst htick
            rw [get_timers_tick, hbefore, if_pos rfl]
            omega
          · rw [get_timers_apply hplay.2 htick, hset, Option.getD_none, hbefore, if_neg htick]
            rfl

/-! ### Two runs -/

theorem eq_withTimers (h : s.withoutTimers = t.withoutTimers) : t = s.withTimers t.timers :=
  (congrArg (·.withTimers t.timers) h).symm

theorem performed?_congr (h : s.withoutTimers = t.withoutTimers) (a : Action) :
    s.performed? a = t.performed? a := by
  rw [eq_withTimers h]
  cases a <;> rfl

theorem setsTimer?_congr (h : s.withoutTimers = t.withoutTimers) (a : Action) :
    s.setsTimer? timer a = t.setsTimer? timer a := by
  have hreg : s.reg = t.reg := by
    rw [eq_withTimers h]
    rfl
  rw [setsTimer?, setsTimer?, performed?_congr h, hreg]

theorem withoutTimers_apply_congr (h : s.withoutTimers = t.withoutTimers) (ha : a.inPlay)
    (hread : ∀ x, s.performed? a ≠ some (.loadDelay x)) :
    (s.apply a).withoutTimers = (t.apply a).withoutTimers := by
  rw [eq_withTimers h, apply_withTimers ha hread]
  rfl

/-- Leaving out the ticks changes nothing but the timers, as long as nothing reads a timer with the
ticks or without them. Neither does it change what is collected, if ticks bring none of it about and
timers do not matter to it. -/
theorem run_without_ticks {β : Type} (hsame : s.withoutTimers = t.withoutTimers)
    (hplay : ∀ a ∈ history, a.inPlay)
    (hread : (∀ x, .loadDelay x ∉ s.collect performed? history) ∨
      ∀ x, .loadDelay x ∉ t.collect performed? (history.filter (· ≠ .tick))) :
    (s.run history).withoutTimers = (t.run (history.filter (· ≠ .tick))).withoutTimers ∧
      ∀ f : State → Action → Option β, (∀ s, f s .tick = none) →
        (∀ s t a, s.withoutTimers = t.withoutTimers → f s a = f t a) →
          s.collect f history = t.collect f (history.filter (· ≠ .tick)) := by
  induction history generalizing s t with
  | nil => exact ⟨hsame, fun _ _ _ ↦ rfl⟩
  | cons a history ih =>
      rw [List.forall_mem_cons] at hplay
      by_cases htick : a = .tick
      · subst htick
        rw [List.filter_cons_of_neg (by simp)] at hread ⊢
        obtain ⟨hrun, hcollect⟩ := ih (s := s.tick) (t := t) hsame hplay.2 hread
        refine ⟨hrun, ?_⟩
        intro f hnone hblind
        rw [collect_cons, hnone]
        exact hcollect f hnone hblind
      · rw [List.filter_cons_of_pos (by simpa using htick)] at hread ⊢
        have hperformed := performed?_congr hsame a
        simp only [collect_cons, List.mem_append, not_or, forall_and, ← hperformed] at hread
        have hread' : ∀ x, s.performed? a ≠ some (.loadDelay x) := by
          intro x hx
          obtain ⟨hnot, -⟩ | ⟨hnot, -⟩ := hread
          · exact hnot x (by rw [hx]; exact List.mem_singleton_self _)
          · exact hnot x (by rw [hx]; exact List.mem_singleton_self _)
        obtain ⟨hrun, hcollect⟩ := ih (withoutTimers_apply_congr hsame hplay.1 hread') hplay.2
          (hread.imp And.right And.right)
        refine ⟨hrun, ?_⟩
        intro f hnone hblind
        rw [collect_cons, collect_cons, hblind s t a hsame, hcollect f hnone hblind]

theorem performed?_without_ticks (hplay : ∀ a ∈ history, a.inPlay)
    (hread : (∀ x, .loadDelay x ∉ s.collect performed? history) ∨
      ∀ x, .loadDelay x ∉ s.collect performed? (history.filter (· ≠ .tick))) :
    s.collect performed? history = s.collect performed? (history.filter (· ≠ .tick)) :=
  (run_without_ticks rfl hplay hread).2 _ (fun _ ↦ rfl) fun _ _ a h ↦ performed?_congr h a

theorem setsTimer?_without_ticks (timer : Timer) (hplay : ∀ a ∈ history, a.inPlay)
    (hread : ∀ x, .loadDelay x ∉ s.collect performed? history) :
    s.collect (setsTimer? timer) history =
      s.collect (setsTimer? timer) (history.filter (· ≠ .tick)) :=
  (run_without_ticks rfl hplay (.inl hread)).2 _ (fun _ ↦ rfl) fun _ _ a h ↦ setsTimer?_congr h a

theorem inPlay_of_filter (hplay : ∀ a ∈ history, a.inPlay)
    (hsame : history.filter (· ≠ .tick) = history'.filter (· ≠ .tick)) :
    ∀ a ∈ history', a.inPlay := by
  intro a ha
  by_cases htick : a = .tick
  · rw [htick]
    rfl
  · have hmem : a ∈ history'.filter (· ≠ .tick) :=
      List.mem_filter.2 ⟨ha, decide_eq_true htick⟩
    rw [← hsame] at hmem
    exact hplay a (List.mem_of_mem_filter hmem)

/-- Two runs in play with the same steps and reports of keys from the same state, one of which reads
no timer: the other one reads none either, and they agree on everything but the timers. They agree
on each timer that has seen as many ticks in both since an instruction last set it. Whatever the
machine, a tick may as well come after a step as before it if the step performs no instruction that
uses the timers. -/
theorem runs_agree_up_to_ticks :
    (∀ (s : State) (history history' : List Action), (∀ a ∈ history, a.inPlay) →
      history.filter (· ≠ .tick) = history'.filter (· ≠ .tick) →
      (∀ x, .loadDelay x ∉ s.collect performed? history) →
      (∀ x, .loadDelay x ∉ s.collect performed? history') ∧
        { s.run history with timers := .zero } = { s.run history' with timers := .zero } ∧
        ∀ timer, s.ticksSinceSet timer history = s.ticksSinceSet timer history' →
          (s.run history).timers.get timer = (s.run history').timers.get timer) ∧
      ∀ s : State, (∀ ins, s.turn = .perform ins → ins.usesTimers = false) →
        s.tick.step = s.step.tick := by
  refine ⟨?_, ?_⟩
  · intro s history history' hplay hsame hread
    have hplay' := inPlay_of_filter hplay hsame
    have hfilter := performed?_without_ticks hplay (.inl hread)
    have hfilter' : s.collect performed? history' =
        s.collect performed? (history'.filter (· ≠ .tick)) :=
      performed?_without_ticks hplay' (.inr (by rwa [← hsame, ← hfilter]))
    have hread' : ∀ x, .loadDelay x ∉ s.collect performed? history' := by
      rwa [hfilter', ← hsame, ← hfilter]
    refine ⟨hread', ?_, ?_⟩
    · have hrun := (run_without_ticks (β := Unit) rfl hplay (.inl hread)).1
      have hrun' := (run_without_ticks (β := Unit) rfl hplay' (.inl hread')).1
      rw [← hsame] at hrun'
      exact hrun.trans hrun'.symm
    · intro timer hticks
      have hset : s.collect (setsTimer? timer) history = s.collect (setsTimer? timer) history' := by
        rw [setsTimer?_without_ticks timer hplay hread,
          setsTimer?_without_ticks timer hplay' hread', hsame]
      rw [← UInt8.toNat_inj, get_timers_run hplay, get_timers_run hplay', hset, hticks]
  · intro s h
    refine tick_step_comm ?_
    intro ins hins
    obtain ⟨-, hturn⟩ | hexecute := performed?_eq_some.1 hins
    · exact h ins hturn
    · cases hexecute

/-- Both timers are set, and only before that does one run have more ticks than the other. -/
theorem runs_agree_once_timers_set :
    let s : State :=
      { initial .fixed with
        memory := (⟨.replicate 0x1000 0⟩ : Memory).writeList 0x200
          [0x60, 0x05, 0xF0, 0x15, 0xF0, 0x18] }
    let press := .setKey (Key.ofNat 5) true
    let history := [.tick, .step, .tick, .tick, .step, .tick, .tick, press, .step, .tick]
    let history' := [.step, .step, .tick, press, .tick, .step, .tick]
    { s.run history with timers := .zero } = { s.run history' with timers := .zero } ∧
      (s.run history).timers.get .delay = (s.run history').timers.get .delay ∧
      (s.run history).timers.get .sound = (s.run history').timers.get .sound ∧
      (s.run history).timers = ⟨2, 4⟩ ∧ s.tick.step = s.step.tick := by
  intro s press history history'
  have hread : ∀ x, .loadDelay x ∉ s.collect performed? history := by decide +kernel
  have huses : ∀ ins, s.turn = .perform ins → ins.usesTimers = false := by
    have hturn : s.turn = .perform (.loadByte .v0 5) := by decide +kernel
    rintro ins h
    cases hturn.symm.trans h
    rfl
  obtain ⟨-, hrun, htimers⟩ :=
    runs_agree_up_to_ticks.1 s history history' (by decide) (by decide) hread
  exact ⟨hrun, htimers .delay (by decide +kernel), htimers .sound (by decide +kernel),
    by decide +kernel, runs_agree_up_to_ticks.2 s huses⟩

end State

end Chip8
