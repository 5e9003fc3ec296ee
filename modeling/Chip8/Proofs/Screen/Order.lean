import Chip8.Proofs.Screen.Toggle
import Mathlib.Algebra.BigOperators.Group.Finset.Basic
import Mathlib.Algebra.BigOperators.Ring.Finset

/-!
# Sprites drawn one after another

Drawings that follow one another toggle all their points, and points can be toggled in any order. So
the order of the drawings shows neither on the screen nor in whether there was any collision, only
in which of them collided.
-/

namespace Chip8

/-- A sprite and where its corner is drawn. -/
structure Drawing where
  sprite : List UInt8
  x : Nat
  y : Nat
  deriving DecidableEq, Repr

def Drawing.points (d : Drawing) : List (Nat × Nat) :=
  spritePoints d.x d.y d.sprite

namespace Screen

/-- Draws one sprite after another, and tells of each whether there was a collision. -/
def drawAll (s : Screen) : List Drawing → Screen × List Bool
  | [] => (s, [])
  | d :: drawings =>
    let drawn := s.draw d.sprite d.x d.y
    let (after, collisions) := drawn.1.drawAll drawings
    (after, drawn.2 :: collisions)

variable {s : Screen} {drawings reordered : List Drawing}

theorem drawAll_cons (s : Screen) (d : Drawing) (drawings : List Drawing) :
    s.drawAll (d :: drawings) =
      (((s.draw d.sprite d.x d.y).1.drawAll drawings).1,
        (s.draw d.sprite d.x d.y).2 :: ((s.draw d.sprite d.x d.y).1.drawAll drawings).2) := rfl

/-- Sprites drawn one after another toggle all their points. -/
theorem toggleAll_flatMap_points (s : Screen) (drawings : List Drawing) :
    s.toggleAll (drawings.flatMap Drawing.points) =
      ((s.drawAll drawings).1, (s.drawAll drawings).2.any id) := by
  induction drawings generalizing s with
  | nil => rfl
  | cons d drawings ih =>
      rw [List.flatMap_cons, toggleAll_append, ih, drawAll_cons]
      rfl

theorem hits_flatMap_points (drawings : List Drawing) (x y : Nat) :
    hits (drawings.flatMap Drawing.points) x y = (drawings.map fun d ↦ hits d.points x y).sum :=
  List.countP_flatMap

theorem drawAll_of_even (h : ∀ d ∈ drawings, Even (drawings.count d)) :
    (s.drawAll drawings).1 = s := by
  apply ext_pixel
  intro x y
  have heven : Even (hits (drawings.flatMap Drawing.points) x y) := by
    rw [hits_flatMap_points, Finset.sum_list_map_count]
    refine even_iff_two_dvd.2 (Finset.dvd_sum fun d hd ↦ ?_)
    exact ((h d (List.mem_toFinset.1 hd)).mul_right _).two_dvd
  have hdrawn : (s.toggleAll (drawings.flatMap Drawing.points)).1 = (s.drawAll drawings).1 :=
    congrArg Prod.fst (toggleAll_flatMap_points s drawings)
  rw [← hdrawn, pixel_toggleAll]
  simp [Nat.not_odd_iff_even.2 heven]

theorem drawAll_perm (h : drawings.Perm reordered) :
    (s.drawAll drawings).1 = (s.drawAll reordered).1 ∧
      (s.drawAll drawings).2.any id = (s.drawAll reordered).2.any id := by
  have hsame := toggleAll_perm (s := s) (h.flatMap_right Drawing.points)
  rwa [toggleAll_flatMap_points, toggleAll_flatMap_points, Prod.mk.injEq] at hsame

/-- The same drawings in another order leave the same screen, and there is a collision in one order
if and only if there is one in the other, though not always as many. Drawings that each occur an
even number of times leave the screen as it was. -/
theorem drawings_in_any_order :
    (∀ (s : Screen) (drawings reordered : List Drawing), drawings.Perm reordered →
      (s.drawAll drawings).1 = (s.drawAll reordered).1 ∧
        (s.drawAll drawings).2.any id = (s.drawAll reordered).2.any id) ∧
      (∀ (s : Screen) (drawings : List Drawing), (∀ d ∈ drawings, Even (drawings.count d)) →
        (s.drawAll drawings).1 = s) ∧
      ∃ (s : Screen) (drawings reordered : List Drawing), drawings.Perm reordered ∧
        ¬ (s.drawAll drawings).2.Perm (s.drawAll reordered).2 := by
  refine ⟨fun s drawings reordered ↦ drawAll_perm, fun s drawings ↦ drawAll_of_even, ?_⟩
  -- Two points at once find the screen dark only if they come first.
  exact ⟨blank, [⟨[0xC0], 0, 0⟩, ⟨[0x80], 0, 0⟩, ⟨[0x40], 0, 0⟩],
    [⟨[0x80], 0, 0⟩, ⟨[0x40], 0, 0⟩, ⟨[0xC0], 0, 0⟩], by decide, by decide +kernel⟩

end Screen

end Chip8
