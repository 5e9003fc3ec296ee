import Mathlib.Data.List.Basic

/-!
# Checks made one after another

A command makes its checks in an order and stops at the first one that fails. What each check finds
is said on its own, whatever the others find, so it is the order that decides which failure is
reported.
-/

namespace Chip8

variable {γ ε δ α β : Type}

/-- Of the checks that fail, the first one fails with `e`. -/
def FirstFailure (fails : γ → ε → Prop) (checks : List γ) (e : ε) : Prop :=
  ∃ before c later, checks = before ++ c :: later ∧ fails c e ∧ ∀ b ∈ before, ∀ e', ¬ fails b e'

/-- The result is the first failure, if any of the checks fails. -/
def Reports (fails : γ → ε → Prop) (checks : List γ) (result : Except ε α) : Prop :=
  ∀ e, result = .error e ↔ FirstFailure fails checks e

section Effects

variable {σ : Type} {x : ExceptT ε (StateM σ) α} {f : α → ExceptT ε (StateM σ) β} {s after : σ}

@[simp] theorem run_lift (result : Except ε α) (s : σ) :
    (liftM result : ExceptT ε (StateM σ) α).run.run s = (result, s) := rfl

theorem run_bind_eq (x : ExceptT ε (StateM σ) α) (f : α → ExceptT ε (StateM σ) β) (s : σ) :
    (x >>= f).run.run s = (ExceptT.bindCont f (x.run.run s).1).run (x.run.run s).2 := rfl

theorem run_bind_of_ok {a : α} (h : x.run.run s = (.ok a, after)) :
    (x >>= f).run.run s = (f a).run.run after := by
  rw [run_bind_eq, h]
  rfl

/-- After a failure nothing more is done. -/
theorem run_bind_of_error {e : ε} (h : x.run.run s = (.error e, after)) :
    (x >>= f).run.run s = (.error e, after) := by
  rw [run_bind_eq, h]
  rfl

end Effects

/-! ### The first failure -/

variable {fails : γ → ε → Prop} {checks more : List γ} {c : γ} {e : ε}

@[simp] theorem not_firstFailure_nil : ¬ FirstFailure fails [] e := by
  rintro ⟨before, c, later, h, -⟩
  exact List.append_ne_nil_of_right_ne_nil before (List.cons_ne_nil c later) h.symm

theorem firstFailure_cons :
    FirstFailure fails (c :: checks) e ↔
      fails c e ∨ (∀ e', ¬ fails c e') ∧ FirstFailure fails checks e := by
  constructor
  · rintro ⟨before, b, later, h, hb, hbefore⟩
    rw [List.cons_eq_append_iff] at h
    obtain ⟨rfl, h⟩ | ⟨before, rfl, rfl⟩ := h
    · obtain ⟨rfl, -⟩ := List.cons.inj h
      exact .inl hb
    · obtain ⟨hc, hbefore⟩ := List.forall_mem_cons.1 hbefore
      exact .inr ⟨hc, before, b, later, rfl, hb, hbefore⟩
  · rintro (hc | ⟨hc, before, b, later, rfl, hb, hbefore⟩)
    · exact ⟨[], c, checks, rfl, hc, by simp⟩
    · exact ⟨c :: before, b, later, rfl, hb, List.forall_mem_cons.2 ⟨hc, hbefore⟩⟩

theorem firstFailure_append :
    FirstFailure fails (checks ++ more) e ↔
      FirstFailure fails checks e ∨
        (∀ c ∈ checks, ∀ e', ¬ fails c e') ∧ FirstFailure fails more e := by
  induction checks with
  | nil => simp
  | cons c checks ih =>
      rw [List.cons_append, firstFailure_cons, firstFailure_cons, ih, List.forall_mem_cons]
      tauto

/-- Some check is the first to fail unless all of them pass. -/
theorem exists_firstFailure :
    (∃ e, FirstFailure fails checks e) ↔ ∃ c ∈ checks, ∃ e, fails c e := by
  induction checks with
  | nil => simp
  | cons c checks ih =>
      simp only [firstFailure_cons, exists_or, exists_and_left, ih, List.exists_mem_cons_iff]
      by_cases hc : ∃ e, fails c e
      · simp only [hc, true_or]
      · rw [and_iff_right (not_exists.1 hc)]

namespace Reports

theorem ok (a : α) : Reports fails [] (.ok a) := by
  intro e
  simp

theorem one {result : Except ε α} (h : ∀ e, result = .error e ↔ fails c e) :
    Reports fails [c] result := by
  intro e
  rw [h, firstFailure_cons]
  simp

/-- Nothing that a successful result reports on has failed. -/
theorem not_fails {a : α} (h : Reports fails checks (.ok a)) : ∀ c ∈ checks, ∀ e, ¬ fails c e := by
  intro c hc e hfails
  obtain ⟨e', hfirst⟩ := exists_firstFailure.2 ⟨c, hc, e, hfails⟩
  cases (h e').2 hfirst

theorem exists_ok {result : Except ε α} (h : Reports fails checks result)
    (hnone : ∀ c ∈ checks, ∀ e, ¬ fails c e) : ∃ a, result = .ok a := by
  cases result with
  | error e =>
      obtain ⟨c, hc, e', hfails⟩ := exists_firstFailure.1 ⟨e, (h e).1 rfl⟩
      exact absurd hfails (hnone c hc e')
  | ok a => exact ⟨a, rfl⟩

theorem map {result : Except ε α} (h : Reports fails checks result) (f : α → β) :
    Reports fails checks (result.map f) := by
  intro e
  rw [← h e]
  cases result with
  | error e' => simp [Except.map]
  | ok a => simp [Except.map]

/-- What goes on with a successful result reports on further checks. -/
theorem bind {result : Except ε α} {f : α → Except ε β} (h : Reports fails checks result)
    (hf : ∀ a, result = .ok a → Reports fails more (f a)) :
    Reports fails (checks ++ more) (result.bind f) := by
  intro e
  rw [firstFailure_append, ← h e]
  cases result with
  | error e' =>
      have hfails : ¬ ∀ c ∈ checks, ∀ e, ¬ fails c e := by
        intro hnone
        obtain ⟨a, ha⟩ := h.exists_ok hnone
        cases ha
      simp [Except.bind, hfails]
  | ok a =>
      rw [and_iff_right h.not_fails, ← hf a rfl e]
      simp [Except.bind]

end Reports

end Chip8
