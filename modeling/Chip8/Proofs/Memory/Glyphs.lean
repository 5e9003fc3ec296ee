import Chip8.Proofs.Memory.Store

/-!
# Glyphs in memory

As long as nothing is stored over them, the glyph of every digit can be read at its address.
-/

namespace Chip8

namespace Glyph

/-- The digit whose glyph stands for a number. -/
def digit (b : UInt8) : Fin 16 :=
  ⟨min b.toNat 15, Nat.lt_succ_of_le (Nat.min_le_right _ _)⟩

theorem rows_eq_map (digit : Fin 16) :
    rows digit = (List.range height).map fun j ↦ bytes.getD (height * digit + j) 0 := by
  revert digit
  decide

theorem toNat_address (b : UInt8) : (address b).toNat = height * (digit b).val := by
  have hle : min b.toNat 15 ≤ 15 := Nat.min_le_right _ _
  rw [address, UInt16.toNat_ofNat']
  simp only [digit, start, height]
  omega

end Glyph

namespace Memory

variable {m : Memory}

theorem restoreGlyphs_restoreGlyphs (m : Memory) :
    m.restoreGlyphs.restoreGlyphs = m.restoreGlyphs := by
  refine ext_get fun p ↦ ?_
  rw [get_restoreGlyphs]
  split
  · next hp => rw [get_restoreGlyphs, if_pos hp]
  · rfl

theorem get_of_glyphs (h : m.restoreGlyphs = m) {p : Address} (hp : p.val < Glyph.size) :
    m.get p = Glyph.bytes.getD p.val 0 := by
  rw [← h, get_restoreGlyphs, if_pos hp]

theorem readRange_glyph (h : m.restoreGlyphs = m) (b : UInt8) :
    m.readRange (Glyph.address b) Glyph.height = Glyph.rows (Glyph.digit b) := by
  rw [readRange, Glyph.rows_eq_map]
  refine List.map_congr_left fun j hj ↦ ?_
  have hdigit := (Glyph.digit b).isLt
  have hlow : Glyph.height * (Glyph.digit b).val + j < Glyph.size := by
    simp only [Glyph.height, Glyph.size, List.mem_range] at hj ⊢
    omega
  have hplace : (Address.wrap ((Glyph.address b).toNat + j)).val =
      Glyph.height * (Glyph.digit b).val + j := by
    rw [Glyph.toNat_address, Address.val_wrap]
    exact Nat.mod_eq_of_lt (Nat.lt_trans hlow (by decide))
  rw [get_of_glyphs h (hplace ▸ hlow), hplace]

theorem restoreGlyphs_writeList (h : m.restoreGlyphs = m) {w : Word} {bytes : List UInt8}
    (hbeyond : ∀ k < bytes.length, Glyph.size ≤ (Address.wrap (w.toNat + k)).val) :
    (m.writeList w bytes).restoreGlyphs = m.writeList w bytes := by
  refine ext_get fun p ↦ ?_
  rw [get_restoreGlyphs]
  split
  · next hp =>
    rw [get_writeList_of_ne, get_of_glyphs h hp]
    rintro k hk rfl
    exact Nat.not_lt.2 (hbeyond k hk) hp
  · rfl

end Memory

end Chip8
