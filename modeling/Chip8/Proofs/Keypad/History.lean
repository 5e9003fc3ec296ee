import Chip8.Keypad
import Chip8.Proofs.History.Since
import Mathlib.Data.List.Induction

/-!
# What a keypad remembers

The keys that are down and the press that is pending, told from the past of a keypad alone. A key is
down if that is the last that was reported of it, and a press is pending from when a key goes down
until it is taken, another key goes down or all keys are released at once.
-/

namespace Chip8

namespace Keypad

/-- What can be done to a keypad. -/
inductive Operation where
  | set (k : Key) (isDown : Bool)
  /-- Takes the pending press. -/
  | take
  /-- Releases all keys and forgets the pending press. -/
  | clear
  deriving DecidableEq, Repr

def apply (p : Keypad) : Operation → Keypad
  | .set k isDown => p.set k isDown
  | .take => p.take
  | .clear => released

/-- The press that the operation hands over. -/
def handedOver? (p : Keypad) : Operation → Option Key
  | .take => p.pending
  | _ => none

def run (p : Keypad) (history : List Operation) : Keypad :=
  history.foldl apply p

/-- The keys go down one after another and none of them is released. -/
def presses (keys : List Key) : List Operation :=
  keys.map (.set · true)

/-- The key was reported down, and since then it was not reported again and not all keys were
released. -/
def Held (k : Key) : List Operation → Prop :=
  Since (fun _ a ↦ a = .set k true) fun _ a ↦ a ≠ .clear ∧ ∀ isDown, a ≠ .set k isDown

/-- The operation reports the key down, and it was up until then. -/
def GoesDown (k : Key) (past : List Operation) (a : Operation) : Prop :=
  a = .set k true ∧ ¬ Held k past

/-- The key went down, and since then no press was taken, not all keys were released and no key
went down. -/
def Latched (k : Key) : List Operation → Prop :=
  Since (GoesDown k) fun past a ↦ a ≠ .take ∧ a ≠ .clear ∧ ∀ k', ¬ GoesDown k' past a

/-- Some key went down, and since then no press was taken and not all keys were released. -/
def Pressed : List Operation → Prop :=
  Since (fun past a ↦ ∃ k, GoesDown k past a) fun _ a ↦ a ≠ .take ∧ a ≠ .clear

/-- The key occurs among the keys, and its first place is the last of all first places. -/
def Newest (k : Key) (keys : List Key) : Prop :=
  k ∈ keys ∧ ∀ k' ∈ keys, keys.idxOf k' ≤ keys.idxOf k

variable {k : Key} {keys : List Key} {history : List Operation} {a : Operation}

@[simp] theorem run_concat (p : Keypad) (history : List Operation) (a : Operation) :
    p.run (history ++ [a]) = (p.run history).apply a := by
  simp [run]

@[simp] theorem presses_concat (keys : List Key) (k : Key) :
    presses (keys ++ [k]) = presses keys ++ [.set k true] := by
  simp [presses]

/-! ### Keys that are down -/

theorem isDown_run (k : Key) (history : List Operation) :
    (released.run history).isDown k = true ↔ Held k history := by
  induction history using List.reverseRecOn with
  | nil => simp [run, Held]
  | append_singleton history a ih =>
      rw [run_concat, Held, since_concat, ← Held, ← ih]
      cases a with
      | set k' isDown =>
          rw [apply, isDown_set]
          by_cases hk : k' = k <;> simp [hk]
      | take => simp [apply]
      | clear => simp [apply]

theorem anyDown_eq_true {p : Keypad} : p.anyDown = true ↔ ∃ k, p.isDown k = true := by
  rw [anyDown, Vector.any_eq_true]
  constructor
  · rintro ⟨i, hi, hdown⟩
    exact ⟨⟨i, hi⟩, hdown⟩
  · rintro ⟨k, hdown⟩
    exact ⟨k.val, k.isLt, hdown⟩

/-! ### The pending press -/

theorem pending_apply_of_goesDown (h : GoesDown k history a) :
    ((released.run history).apply a).pending = some k := by
  obtain ⟨rfl, hup⟩ := h
  rw [← isDown_run, Bool.not_eq_true] at hup
  simp [apply, set, hup]

theorem pending_apply_of_not_goesDown (htake : a ≠ .take) (hclear : a ≠ .clear)
    (h : ∀ k, ¬ GoesDown k history a) :
    ((released.run history).apply a).pending = (released.run history).pending := by
  cases a with
  | set k isDown =>
      cases isDown with
      | false => rfl
      | true =>
          have hdown : (released.run history).isDown k = true := by
            rw [isDown_run]
            by_contra hup
            exact h k ⟨rfl, hup⟩
          simp [apply, set, hdown]
  | take => exact absurd rfl htake
  | clear => exact absurd rfl hclear

/-- What an operation does to the pending press: a key that goes down replaces it, a press that is
taken and a release of all keys forget it, and nothing else touches it. -/
theorem pending_cases (history : List Operation) (a : Operation) :
    (∃ k, GoesDown k history a ∧ ((released.run history).apply a).pending = some k) ∨
      (∀ k, ¬ GoesDown k history a) ∧ ¬ (a ≠ .take ∧ a ≠ .clear) ∧
        ((released.run history).apply a).pending = none ∨
      (∀ k, ¬ GoesDown k history a) ∧ a ≠ .take ∧ a ≠ .clear ∧
        ((released.run history).apply a).pending = (released.run history).pending := by
  by_cases hdown : ∃ k, GoesDown k history a
  · obtain ⟨k, hk⟩ := hdown
    exact .inl ⟨k, hk, pending_apply_of_goesDown hk⟩
  have hnone : ∀ k, ¬ GoesDown k history a := not_exists.1 hdown
  by_cases htake : a = .take
  · exact .inr (.inl ⟨hnone, fun hkeeps ↦ hkeeps.1 htake, by rw [htake]; rfl⟩)
  by_cases hclear : a = .clear
  · exact .inr (.inl ⟨hnone, fun hkeeps ↦ hkeeps.2 hclear, by rw [hclear]; rfl⟩)
  · exact .inr (.inr ⟨hnone, htake, hclear, pending_apply_of_not_goesDown htake hclear hnone⟩)

theorem GoesDown.unique {k' : Key} (h : GoesDown k history a) (h' : GoesDown k' history a) :
    k = k' := by
  have hset := h.1.symm.trans h'.1
  rw [Operation.set.injEq] at hset
  exact hset.1

theorem pending_run (k : Key) (history : List Operation) :
    (released.run history).pending = some k ↔ Latched k history := by
  induction history using List.reverseRecOn with
  | nil => simp [run, Latched]
  | append_singleton history a ih =>
      rw [run_concat, Latched, since_concat, ← Latched, ← ih]
      obtain ⟨k', hk', hpending⟩ | ⟨hnone, hforget, hpending⟩ | ⟨hnone, htake, hclear, hpending⟩ :=
        pending_cases history a
      · rw [hpending, Option.some.injEq]
        constructor
        · rintro rfl
          exact .inl hk'
        · rintro (hk | ⟨-, -, -, hother⟩)
          · exact hk'.unique hk
          · exact absurd hk' (hother k')
      · rw [hpending]
        simp [hnone, hforget]
      · rw [hpending]
        simp [hnone, htake, hclear]

theorem isSome_pending_run (history : List Operation) :
    (released.run history).pending.isSome ↔ Pressed history := by
  induction history using List.reverseRecOn with
  | nil => simp [run, Pressed]
  | append_singleton history a ih =>
      rw [run_concat, Pressed, since_concat, ← Pressed, ← ih]
      obtain ⟨k, hk, hpending⟩ | ⟨hnone, hforget, hpending⟩ | ⟨hnone, htake, hclear, hpending⟩ :=
        pending_cases history a
      · rw [hpending]
        exact iff_of_true rfl (.inl ⟨k, hk⟩)
      · rw [hpending]
        simp [hnone, hforget]
      · rw [hpending]
        simp [hnone, htake, hclear]

/-! ### Keys pressed one after another -/

theorem held_presses : Held k (presses keys) ↔ k ∈ keys := by
  induction keys using List.reverseRecOn with
  | nil => simp [presses, Held]
  | append_singleton keys k' ih =>
      rw [presses_concat, Held, since_concat, ← Held, ih, List.mem_append, List.mem_singleton]
      by_cases hk : k = k'
      · simp [hk]
      · simp [hk, Ne.symm hk]

theorem newest_concat_of_mem {j : Key} (hj : j ∈ keys) :
    Newest k (keys ++ [j]) ↔ Newest k keys := by
  have hmem (k' : Key) : k' ∈ keys ++ [j] ↔ k' ∈ keys := by
    rw [List.mem_append, List.mem_singleton]
    refine or_iff_left_of_imp ?_
    rintro rfl
    exact hj
  simp only [Newest, hmem]
  refine and_congr_right fun hk ↦ forall₂_congr fun k' hk' ↦ ?_
  rw [List.idxOf_append_of_mem hk, List.idxOf_append_of_mem hk']

theorem newest_concat_of_notMem {j : Key} (hj : j ∉ keys) : Newest k (keys ++ [j]) ↔ j = k := by
  have hlast : (keys ++ [j]).idxOf j = keys.length := by
    rw [List.idxOf_append_of_notMem hj, List.idxOf_cons_self, Nat.add_zero]
  constructor
  · rintro ⟨hk, hle⟩
    rw [List.mem_append, List.mem_singleton] at hk
    obtain hk | rfl := hk
    · have hle := hle j (List.mem_append_right keys (List.mem_singleton_self j))
      rw [hlast, List.idxOf_append_of_mem hk] at hle
      exact absurd (List.idxOf_lt_length_of_mem hk) (Nat.not_lt.2 hle)
    · rfl
  · rintro rfl
    refine ⟨List.mem_append_right keys (List.mem_singleton_self j), ?_⟩
    intro k' hk'
    have hlt := List.idxOf_lt_length_of_mem hk'
    rw [List.length_append, List.length_singleton] at hlt
    rw [hlast]
    exact Nat.le_of_lt_succ hlt

theorem pending_run_presses (k : Key) (keys : List Key) :
    (released.run (presses keys)).pending = some k ↔ Newest k keys := by
  induction keys using List.reverseRecOn with
  | nil => simp [presses, run, Newest]
  | append_singleton keys j ih =>
      rw [presses_concat, run_concat]
      by_cases hj : j ∈ keys
      · have hnone : ∀ k', ¬ GoesDown k' (presses keys) (.set j true) := by
          rintro k' ⟨hset, hup⟩
          rw [Operation.set.injEq] at hset
          rw [← hset.1, held_presses] at hup
          exact hup hj
        rw [pending_apply_of_not_goesDown (by simp) (by simp) hnone, ih, newest_concat_of_mem hj]
      · rw [pending_apply_of_goesDown ⟨rfl, held_presses.not.2 hj⟩, Option.some.injEq,
          newest_concat_of_notMem hj]

/-- The whole past of a new keypad says what it holds. A key is down if and only if the last report
of it since all keys were released says so, and some key is down if and only if that is so for one.
A take hands over the last key that went down since the last take and the last release of all keys,
whether or not it is still down, and nothing if and only if none went down. Of keys that are pressed
one after another without a release, it hands over the one whose first press comes last. -/
theorem latch_over_history :
    (∀ history : List Operation,
      let p := released.run history
      (∀ k, p.isDown k = true ↔ Held k history) ∧
        (p.anyDown = true ↔ ∃ k, Held k history) ∧
        (∀ k, p.handedOver? .take = some k ↔ Latched k history) ∧
        (p.handedOver? .take = none ↔ ¬ Pressed history)) ∧
      ∀ (keys : List Key) (k : Key),
        (released.run (presses keys)).handedOver? .take = some k ↔ Newest k keys := by
  refine ⟨?_, ?_⟩
  · intro history p
    refine ⟨fun k ↦ isDown_run k history, ?_, fun k ↦ pending_run k history, ?_⟩
    · rw [anyDown_eq_true]
      exact exists_congr fun k ↦ isDown_run k history
    · rw [← isSome_pending_run, Option.not_isSome_iff_eq_none]
      rfl
  · intro keys k
    exact pending_run_presses k keys

end Keypad

end Chip8
