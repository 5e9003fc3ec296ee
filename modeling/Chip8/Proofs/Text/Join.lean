import Mathlib.Data.List.TakeWhile

/-!
# Taking joined texts apart

Items that a separator joins can be told from the joined text if its first character is in none of
them.
-/

namespace Chip8.Text

variable {α : Type} {c : α} {l l' r r' s : List α} {xs ys : List (List α)}

theorem takeWhile_of_notMem [DecidableEq α] (h : c ∉ l) : l.takeWhile (· ≠ c) = l := by
  rw [List.takeWhile_eq_self_iff]
  intro a ha
  exact decide_eq_true (ne_of_mem_of_not_mem ha h)

theorem takeWhile_append_mark [DecidableEq α] (h : c ∉ l) :
    (l ++ c :: r).takeWhile (· ≠ c) = l := by
  have hall : ∀ a ∈ l, decide (a ≠ c) = true := List.takeWhile_eq_self_iff.1 (takeWhile_of_notMem h)
  rw [List.takeWhile_append_of_pos hall, List.takeWhile_cons_of_neg (by simp), List.append_nil]

theorem append_mark_inj (hl : c ∉ l) (hl' : c ∉ l') :
    l ++ c :: r = l' ++ c :: r' ↔ l = l' ∧ r = r' := by
  classical
  constructor
  · intro h
    have hfirst : l = l' := by
      have htake := congrArg (List.takeWhile (· ≠ c)) h
      rwa [takeWhile_append_mark hl, takeWhile_append_mark hl'] at htake
    rw [hfirst, List.append_cancel_left_eq, List.cons.injEq] at h
    exact ⟨hfirst, h.2⟩
  · rintro ⟨rfl, rfl⟩
    rfl

theorem mem_of_mem_intercalate (h : c ∈ s.intercalate xs) : c ∈ s ∨ ∃ x ∈ xs, c ∈ x := by
  induction xs with
  | nil => exact absurd h List.not_mem_nil
  | cons x xs ih =>
      cases xs with
      | nil =>
          rw [List.intercalate_singleton] at h
          exact .inr ⟨x, List.mem_singleton_self x, h⟩
      | cons y xs =>
          rw [List.intercalate_cons_cons, List.mem_append, List.mem_append] at h
          obtain (h | h) | h := h
          · exact .inr ⟨x, List.mem_cons_self, h⟩
          · exact .inl h
          · obtain hs | ⟨z, hz, hc⟩ := ih h
            · exact .inl hs
            · exact .inr ⟨z, List.mem_cons_of_mem x hz, hc⟩

theorem intercalate_inj (hxs : xs ≠ []) (hys : ys ≠ []) (hcx : ∀ x ∈ xs, c ∉ x)
    (hcy : ∀ y ∈ ys, c ∉ y) :
    (c :: s).intercalate xs = (c :: s).intercalate ys ↔ xs = ys := by
  refine ⟨fun h ↦ ?_, congrArg _⟩
  induction xs generalizing ys with
  | nil => exact absurd rfl hxs
  | cons x xs ih =>
      rw [List.forall_mem_cons] at hcx
      cases ys with
      | nil => exact absurd rfl hys
      | cons y ys =>
          rw [List.forall_mem_cons] at hcy
          rcases xs with _ | ⟨x', xs⟩ <;> rcases ys with _ | ⟨y', ys⟩
          · rw [List.intercalate_singleton, List.intercalate_singleton] at h
            rw [h]
          · rw [List.intercalate_singleton, List.intercalate_cons_cons] at h
            exact absurd (by simp [h]) hcx.1
          · rw [List.intercalate_singleton, List.intercalate_cons_cons] at h
            exact absurd (by simp [← h]) hcy.1
          · rw [List.intercalate_cons_cons, List.intercalate_cons_cons, List.append_assoc,
              List.append_assoc, List.cons_append, List.cons_append,
              append_mark_inj hcx.1 hcy.1, List.append_cancel_left_eq] at h
            have hrest := ih (by simp) (by simp) hcx.2 hcy.2 h.2
            rw [h.1, hrest]

end Chip8.Text
