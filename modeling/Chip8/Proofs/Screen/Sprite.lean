import Chip8.Proofs.Screen.Draw

/-!
# Sprites that fit on the screen

No two rows of a sprite fall on one another unless it is higher than the screen. So a sprite that
fits flips the pixels under its set bits, and there is a collision if and only if a pixel goes dark.
-/

namespace Chip8

namespace Screen

/-- A set bit of the sprite falls on the pixel `(px, py)` when its corner is at `(x, y)`. -/
def Covers (sprite : List UInt8) (x y px py : Nat) : Prop :=
  ∃ bit : Fin sprite.length × Fin 8,
    (sprite.get bit.1).toNat.testBit (7 - bit.2) ∧ (x + bit.2) % 64 = px ∧ (y + bit.1) % 32 = py

instance (sprite : List UInt8) (x y px py : Nat) : Decidable (Covers sprite x y px py) :=
  inferInstanceAs (Decidable (∃ _, _))

variable {s : Screen} {sprite : List UInt8}

theorem coverage_pos {x y px py : Nat} :
    0 < coverage sprite x y px py ↔ Covers sprite x y px py := by
  rw [coverage, Finset.card_pos, Finset.filter_nonempty_iff]
  simp only [Finset.mem_univ, true_and, Covers, List.get_eq_getElem, Fin.getElem_fin]

theorem coverage_le_one (hfit : sprite.length ≤ height) (x y px py : Nat) :
    coverage sprite x y px py ≤ 1 := by
  rw [coverage, Finset.card_le_one]
  rintro ⟨j, i⟩ hbit ⟨j', i'⟩ hbit'
  obtain ⟨-, -, hx, hy⟩ := Finset.mem_filter.1 hbit
  obtain ⟨-, -, hx', hy'⟩ := Finset.mem_filter.1 hbit'
  have hrow : j = j' := by
    ext
    simp only [height] at hfit hy hy'
    omega
  have hcolumn : i = i' := by
    ext
    simp only at hx hx'
    omega
  rw [hrow, hcolumn]

theorem coverage_of_fits (hfit : sprite.length ≤ height) (x y px py : Nat) :
    coverage sprite x y px py = if Covers sprite x y px py then 1 else 0 := by
  have hle := coverage_le_one hfit x y px py
  split
  · next h => exact Nat.le_antisymm hle (coverage_pos.2 h)
  · next h => exact Nat.eq_zero_of_not_pos (mt coverage_pos.1 h)

theorem pixel_draw (hfit : sprite.length ≤ height) (x y : Nat) (px : Fin 64) (py : Fin 32) :
    (s.draw sprite x y).1.pixel px py = (s.pixel px py ^^ decide (Covers sprite x y px py)) := by
  rw [draw, pixel_toggleAll, hits_spritePoints, coverage_of_fits hfit]
  split
  · next h => simp [h]
  · next h => simp [h]

theorem draw_collision (hfit : sprite.length ≤ height) (x y : Nat) :
    (s.draw sprite x y).2 = true ↔ ∃ (px : Fin 64) (py : Fin 32),
      s.pixel px py = true ∧ (s.draw sprite x y).1.pixel px py = false := by
  rw [draw, toggleAll_collision, exists_collidesAt]
  refine exists_congr fun px ↦ exists_congr fun py ↦ ?_
  rw [← draw, pixel_draw hfit, CollidesAt, hits_spritePoints, coverage_of_fits hfit]
  split
  · next h => simp [h]
  · next h => simp [h]

end Screen

end Chip8
