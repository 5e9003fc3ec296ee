import Chip8.Proofs.Screen.Toggle
import Mathlib.Algebra.BigOperators.Fin
import Mathlib.Data.Fintype.BigOperators
import Mathlib.Data.Nat.Count

/-!
# What drawing a sprite does

Counting where the set bits of a sprite fall, row by row and column by column, says which pixels are
flipped and whether there is a collision. A sprite may be higher than the screen, so that its rows
fall on one another.
-/

namespace Chip8

/-- How many of the set bits of a sprite fall on the pixel `(px, py)` when its corner is at
`(x, y)`. The byte `j` is the row `j`, and its bit for the column `i` is the one of weight
`2 ^ (7 - i)`. -/
def coverage (sprite : List UInt8) (x y px py : Nat) : Nat :=
  Finset.card (Finset.univ.filter fun bit : Fin sprite.length × Fin 8 ↦
    sprite[bit.1].toNat.testBit (7 - bit.2) ∧ (x + bit.2) % 64 = px ∧ (y + bit.1) % 32 = py)

namespace Screen

theorem countP_range (p : Nat → Prop) [DecidablePred p] (n : Nat) :
    (List.range n).countP p = ∑ i : Fin n, if p i then 1 else 0 :=
  calc
    (List.range n).countP p = Finset.card ((Finset.range n).filter p) :=
      Nat.count_eq_card_filter_range p n
    _ = ∑ i ∈ Finset.range n, if p i then 1 else 0 := Finset.card_filter _ _
    _ = ∑ i : Fin n, if p i then 1 else 0 := Finset.sum_range _

theorem coverage_eq_sum (sprite : List UInt8) (x y px py : Nat) :
    coverage sprite x y px py = ∑ j : Fin sprite.length, ∑ i : Fin 8,
      if sprite[j].toNat.testBit (7 - i) ∧ (x + i) % 64 = px ∧ (y + j) % 32 = py then 1 else 0 := by
  rw [coverage, Finset.card_filter, Fintype.sum_prod_type]

theorem hits_row (b : UInt8) (x y : Nat) (px : Fin 64) (py : Fin 32) :
    hits (((List.range 8).filter fun i ↦ b.toNat.testBit (7 - i)).map fun i ↦ (x + i, y)) px py =
      ∑ i : Fin 8,
        if b.toNat.testBit (7 - i) ∧ (x + i) % 64 = px ∧ y % 32 = py then 1 else 0 := by
  rw [← countP_range fun i ↦ b.toNat.testBit (7 - i) ∧ (x + i) % 64 = px ∧ y % 32 = py, hits,
    List.countP_map, List.countP_filter]
  refine List.countP_congr fun i _ ↦ ?_
  have hplace : index (x + i) y = index px py ↔ (x + i) % 64 = px ∧ y % 32 = py := by
    rw [index_eq_iff, Nat.mod_eq_of_lt px.isLt, Nat.mod_eq_of_lt py.isLt]
  simp [hplace, and_comm]

/-- The points of a sprite hit a pixel as often as its set bits fall there. -/
theorem hits_spritePoints (sprite : List UInt8) (x y : Nat) (px : Fin 64) (py : Fin 32) :
    hits (spritePoints x y sprite) px py = coverage sprite x y px py := by
  rw [coverage_eq_sum]
  induction sprite generalizing y with
  | nil => simp [spritePoints]
  | cons b sprite ih =>
      -- The first row, and below it the rest of the sprite with its corner one row further down.
      have hnext (j : Nat) : y + 1 + j = y + (j + 1) := by omega
      rw [spritePoints, hits_append, hits_row, ih (y + 1)]
      refine Eq.trans ?_ (Fin.sum_univ_succ _).symm
      simp only [hnext, Fin.getElem_fin, Fin.val_zero, Fin.val_succ, List.getElem_cons_zero,
        List.getElem_cons_succ, Nat.add_zero]
      rfl

/-- The last of 33 rows falls on the first one. -/
example : hits (spritePoints 0 0 (.replicate 33 0x80)) 0 0 = 2 := by decide +kernel

/-- The pixels of the grid stand for all pixels, since those go round the edges. -/
theorem exists_collidesAt {s : Screen} {points : List (Nat × Nat)} :
    (∃ x y, s.CollidesAt points x y) ↔
      ∃ (px : Fin 64) (py : Fin 32), s.CollidesAt points px py := by
  constructor
  · rintro ⟨x, y, h⟩
    refine ⟨⟨x % 64, Nat.mod_lt x (by decide)⟩, ⟨y % 32, Nat.mod_lt y (by decide)⟩, ?_⟩
    have hplace : index x y = index (x % 64) (y % 32) := by simp [index_eq_iff]
    rwa [CollidesAt, hits_congr hplace, pixel_congr hplace] at h
  · rintro ⟨px, py, h⟩
    exact ⟨px, py, h⟩

/-- A pixel is flipped if an odd number of the set bits of the sprite fall on it. There is a
collision if and only if two of them fall on one pixel or one falls on a pixel that was lit. -/
theorem draw_by_coverage (s : Screen) (sprite : List UInt8) (x y : Nat) :
    (∀ (px : Fin 64) (py : Fin 32), (s.draw sprite x y).1.pixel px py =
      (s.pixel px py ^^ decide (Odd (coverage sprite x y px py)))) ∧
      ((s.draw sprite x y).2 = true ↔ ∃ (px : Fin 64) (py : Fin 32),
        2 ≤ coverage sprite x y px py ∨ 1 ≤ coverage sprite x y px py ∧ s.pixel px py = true) := by
  constructor
  · intro px py
    rw [draw, pixel_toggleAll, hits_spritePoints]
  · rw [draw, toggleAll_collision, exists_collidesAt]
    simp only [CollidesAt, hits_spritePoints]

end Screen

end Chip8
