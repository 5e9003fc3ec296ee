import Chip8.Screen
import Mathlib.Algebra.Ring.Parity

/-!
# Points toggled one after another

How often each pixel is hit says all about a list of points: the pixel ends up flipped if it is hit
an odd number of times, and some hit puts a lit pixel out unless every pixel that is hit was dark
and is hit once. So the order of the points does not matter.
-/

namespace Chip8

namespace Screen

/-- How many of the points fall on the pixel of `(x, y)`. -/
def hits (points : List (Nat × Nat)) (x y : Nat) : Nat :=
  points.countP fun p ↦ index p.1 p.2 = index x y

/-- The pixel of `(x, y)` is hit twice, or it is lit and hit. In either case a hit puts it out. -/
def CollidesAt (s : Screen) (points : List (Nat × Nat)) (x y : Nat) : Prop :=
  2 ≤ hits points x y ∨ 1 ≤ hits points x y ∧ s.pixel x y = true

variable {s t : Screen} {points more : List (Nat × Nat)}

theorem index_eq_iff {x y x' y' : Nat} :
    index x y = index x' y' ↔ x % 64 = x' % 64 ∧ y % 32 = y' % 32 := by
  simp only [index, Fin.mk.injEq]
  omega

theorem ext_pixel (h : ∀ x y, s.pixel x y = t.pixel x y) : s = t := by
  apply Screen.ext
  apply Vector.ext
  intro i hi
  have hplace : (index (i % 64) (i / 64)).val = i := by
    simp only [index]
    omega
  simpa only [pixel, hplace] using h (i % 64) (i / 64)

@[simp] theorem hits_nil (x y : Nat) : hits [] x y = 0 := rfl

theorem hits_cons (p : Nat × Nat) (points : List (Nat × Nat)) (x y : Nat) :
    hits (p :: points) x y = hits points x y + if index p.1 p.2 = index x y then 1 else 0 := by
  simp [hits, List.countP_cons]

@[simp] theorem hits_append (points more : List (Nat × Nat)) (x y : Nat) :
    hits (points ++ more) x y = hits points x y + hits more x y :=
  List.countP_append

theorem hits_perm (h : points.Perm more) (x y : Nat) : hits points x y = hits more x y :=
  h.countP_eq _

theorem hits_congr {x y x' y' : Nat} (h : index x y = index x' y') :
    hits points x y = hits points x' y' := by
  rw [hits, hits, h]

theorem pixel_congr {x y x' y' : Nat} (h : index x y = index x' y') :
    s.pixel x y = s.pixel x' y' := by
  rw [pixel, pixel]
  simp only [h]

theorem pixel_toggleAll (s : Screen) (points : List (Nat × Nat)) (x y : Nat) :
    (s.toggleAll points).1.pixel x y = (s.pixel x y ^^ decide (Odd (hits points x y))) := by
  induction points generalizing s with
  | nil => simp
  | cons p points ih =>
      rw [toggleAll_cons, ih, pixel_toggle, hits_cons]
      by_cases hplace : index p.1 p.2 = index x y
      · simp only [hplace, if_true, Nat.odd_add_one, decide_not, Bool.not_xor, Bool.xor_not]
      · simp [hplace]

theorem collidesAt_cons_of_eq {p : Nat × Nat} {x y : Nat} (h : index p.1 p.2 = index x y) :
    s.CollidesAt (p :: points) x y ↔
      s.pixel x y = true ∨ (s.toggle p.1 p.2).CollidesAt points x y := by
  rw [CollidesAt, CollidesAt, hits_cons, pixel_toggle, if_pos h, if_pos h]
  cases s.pixel x y with
  | true => simp
  | false => simp; omega

theorem collidesAt_cons_of_ne {p : Nat × Nat} {x y : Nat} (h : index p.1 p.2 ≠ index x y) :
    s.CollidesAt (p :: points) x y ↔ (s.toggle p.1 p.2).CollidesAt points x y := by
  rw [CollidesAt, CollidesAt, hits_cons, pixel_toggle, if_neg h, if_neg h, Nat.add_zero]

/-- The first point puts its pixel out if that is lit, and otherwise leaves it lit for a later point
to put out. -/
theorem exists_collidesAt_cons {p : Nat × Nat} :
    (∃ x y, s.CollidesAt (p :: points) x y) ↔
      s.pixel p.1 p.2 = true ∨ ∃ x y, (s.toggle p.1 p.2).CollidesAt points x y := by
  constructor
  · rintro ⟨x, y, h⟩
    -- Only the pixel that the first point hits looks different from here on.
    by_cases hplace : index p.1 p.2 = index x y
    · rcases (collidesAt_cons_of_eq hplace).1 h with hlit | h
      · exact .inl ((pixel_congr hplace).trans hlit)
      · exact .inr ⟨x, y, h⟩
    · exact .inr ⟨x, y, (collidesAt_cons_of_ne hplace).1 h⟩
  · rintro (hlit | ⟨x, y, h⟩)
    · exact ⟨p.1, p.2, (collidesAt_cons_of_eq rfl).2 (.inl hlit)⟩
    · refine ⟨x, y, ?_⟩
      by_cases hplace : index p.1 p.2 = index x y
      · exact (collidesAt_cons_of_eq hplace).2 (.inr h)
      · exact (collidesAt_cons_of_ne hplace).2 h

theorem toggleAll_collision (s : Screen) (points : List (Nat × Nat)) :
    (s.toggleAll points).2 = true ↔ ∃ x y, s.CollidesAt points x y := by
  induction points generalizing s with
  | nil => simp [CollidesAt]
  | cons p points ih =>
      rw [toggleAll_cons, Bool.or_eq_true, ih, exists_collidesAt_cons]

theorem toggleAll_append (s : Screen) (points more : List (Nat × Nat)) :
    s.toggleAll (points ++ more) =
      (((s.toggleAll points).1.toggleAll more).1,
        (s.toggleAll points).2 || ((s.toggleAll points).1.toggleAll more).2) := by
  induction points generalizing s with
  | nil => simp
  | cons p points ih =>
      rw [List.cons_append, toggleAll_cons, toggleAll_cons, ih, Bool.or_assoc]

theorem toggleAll_perm (h : points.Perm more) : s.toggleAll points = s.toggleAll more := by
  apply Prod.ext
  · apply ext_pixel
    intro x y
    rw [pixel_toggleAll, pixel_toggleAll, hits_perm h]
  · rw [Bool.eq_iff_iff, toggleAll_collision, toggleAll_collision]
    simp only [CollidesAt, hits_perm h]

end Screen

end Chip8
