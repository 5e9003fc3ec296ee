import Mathlib.Data.List.Basic

/-!
# What has held since

A fact about the past of a history: something happened at some moment, and from then on something
was the case all along. A moment is an item of the history together with all that came before it.
-/

namespace Chip8

variable {α : Type}

/-- `p` held at some moment, and `q` has held at every moment since. -/
def Since (p q : List α → α → Prop) (history : List α) : Prop :=
  ∃ before a later, history = before ++ a :: later ∧ p before a ∧
    ∀ between b rest, later = between ++ b :: rest → q (before ++ a :: between) b

/-- An item of a history with one more item is this one or an item from before. -/
theorem concat_eq_append_cons {history before later : List α} {a b : α} :
    history ++ [a] = before ++ b :: later ↔
      history = before ∧ a = b ∧ later = [] ∨
        ∃ between, later = between ++ [a] ∧ history = before ++ b :: between := by
  constructor
  · intro h
    rcases List.eq_nil_or_concat' later with rfl | ⟨between, c, rfl⟩
    · obtain ⟨hhistory, hab⟩ := List.append_inj' h rfl
      exact .inl ⟨hhistory, List.singleton_inj.1 hab, rfl⟩
    · rw [← List.cons_append, ← List.append_assoc] at h
      obtain ⟨hhistory, hac⟩ := List.append_inj' h rfl
      rw [List.singleton_inj.1 hac]
      exact .inr ⟨between, rfl, hhistory⟩
  · rintro (⟨rfl, rfl, rfl⟩ | ⟨between, rfl, rfl⟩)
    · rfl
    · rw [← List.cons_append, ← List.append_assoc]

variable {p q : List α → α → Prop} {history : List α} {a : α}

@[simp] theorem not_since_nil : ¬ Since p q [] := by
  rintro ⟨before, a, later, h, -⟩
  exact List.append_ne_nil_of_right_ne_nil before (List.cons_ne_nil a later) h.symm

/-- With one more item, what has held since goes on or begins anew. -/
theorem since_concat :
    Since p q (history ++ [a]) ↔ p history a ∨ Since p q history ∧ q history a := by
  constructor
  · rintro ⟨before, b, later, heq, hp, hq⟩
    obtain ⟨rfl, rfl, -⟩ | ⟨between, rfl, rfl⟩ := concat_eq_append_cons.1 heq
    · exact .inl hp
    · refine .inr ⟨⟨before, b, between, rfl, hp, ?_⟩, hq between a [] rfl⟩
      rintro between d rest rfl
      exact hq between d (rest ++ [a]) (by simp)
  · rintro (hp | ⟨⟨before, b, later, rfl, hp, hq⟩, hlast⟩)
    · exact ⟨history, a, [], rfl, hp, by simp⟩
    · refine ⟨before, b, later ++ [a], by simp, hp, ?_⟩
      intro between d rest heq
      obtain ⟨rfl, rfl, -⟩ | ⟨rest, rfl, rfl⟩ := concat_eq_append_cons.1 heq
      · exact hlast
      · exact hq between d rest rfl

end Chip8
