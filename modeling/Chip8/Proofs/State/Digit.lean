import Chip8.Proofs.Memory.Glyphs
import Chip8.Proofs.Screen.Sprite
import Chip8.Proofs.State.Save

/-!
# Drawing a decimal digit

Four instructions in a row store the decimal digits of a register, load them into the first three
registers, point at the glyph of one of them and draw it. The digits are not stored over the glyphs,
so the glyph that is drawn is that of the digit.
-/

namespace Chip8

namespace State

/-- The digits of the number lie in memory at the index register of `s` and in the first three
registers, and memory, the other registers and the screen are else those of `s`. -/
structure DigitsLoaded (s : State) (n : UInt8) (t : State) : Prop where
  memory : t.memory = s.memory.writeList s.i (decimalDigits n)
  digit : ∀ r : Register, r ≤ 2 → (decimalDigits n)[r.val]? = some (t.reg r)
  register : ∀ r : Register, 2 < r → t.reg r = s.reg r
  screen : t.screen = s.screen

variable {s t : State} {n : UInt8} {x a b k : Register} {convert fetch point draw : Action}

theorem decimalDigits_value (n : UInt8) :
    100 * (n / 100).toNat + 10 * (n % 100 / 10).toNat + (n % 10).toNat = n.toNat := by
  simp only [UInt8.toNat_div, UInt8.toNat_mod, UInt8.reduceToNat]
  omega

theorem toNat_le_of_mem_decimalDigits {d : UInt8} (h : d ∈ decimalDigits n) : d.toNat ≤ 9 := by
  have hn := n.toNat_lt
  simp only [decimalDigits, List.mem_cons, List.not_mem_nil, or_false] at h
  obtain rfl | rfl | rfl := h
  all_goals
    simp only [UInt8.toNat_div, UInt8.toNat_mod, UInt8.reduceToNat]
    omega

theorem length_decimalDigits_le (n : UInt8) : (decimalDigits n).length ≤ memorySize :=
  show 3 ≤ memorySize by decide

theorem exists_digit {r : Register} (hr : r ≤ 2) : ∃ d, (decimalDigits n)[r.val]? = some d := by
  have hlength : r.val < (decimalDigits n).length := Nat.lt_succ_of_le hr
  exact ⟨_, List.getElem?_eq_getElem hlength⟩

theorem exists_register_of_lt {j : Nat} (hj : j < (decimalDigits n).length) :
    ∃ r : Register, r ≤ 2 ∧ r.val = j := by
  have hlt : j < 3 := hj
  exact ⟨⟨j, Nat.lt_trans hlt (by decide)⟩, Nat.le_of_lt_succ hlt, rfl⟩

theorem digitsLoaded_of_fetch (hconvert : s.performed? convert = some (.storeDecimal x))
    (hfetch : (s.apply convert).performed? fetch = some (.loadRegisters 2)) :
    DigitsLoaded s (s.reg x) ((s.apply convert).apply fetch) := by
  have hstored : (s.apply convert).memory = s.memory.writeList s.i (decimalDigits (s.reg x)) :=
    (footprint_of_performed? hconvert).memory
  have hindex : (s.apply convert).i = s.i := index_of_performed? hconvert
  have hkept (r : Register) : (s.apply convert).reg r = s.reg r := by
    have hpart : .register r ∉ (Instruction.storeDecimal x).changes s.i := by
      simp [Instruction.changes, Part.cells]
    exact same_of_performed? hconvert hpart
  have hreg (r : Register) : ((s.apply convert).apply fetch).reg r =
      if r ≤ 2 then (s.apply convert).memory.get (.wrap (s.i.toNat + r.val)) else s.reg r := by
    rw [← hindex, ← hkept]
    exact (reg_of_performed? hfetch r).trans (reg_loadRegisters _ 2 r)
  refine ⟨?_, ?_, ?_, ?_⟩
  · exact (footprint_of_performed? hfetch).memory.trans hstored
  · intro r hr
    obtain ⟨d, hd⟩ := exists_digit (n := s.reg x) hr
    rw [hreg, if_pos hr, hstored, Memory.get_writeList_of_getElem? (length_decimalDigits_le _) hd]
    exact hd
  · intro r hr
    rw [hreg, if_neg (Fin.not_le.2 hr)]
  · have hconverted : Part.screen.Same s (s.apply convert) :=
      same_of_performed? hconvert (by simp [Instruction.changes, Part.cells])
    have hfetched : Part.screen.Same (s.apply convert) ((s.apply convert).apply fetch) :=
      same_of_performed? hfetch (by simp [Instruction.changes])
    exact hconverted.trans hfetched

namespace DigitsLoaded

/-- Pointing at a glyph moves the index register and nothing else. -/
theorem of_pointAtGlyph (h : DigitsLoaded s n t)
    (hpoint : t.performed? point = some (.pointAtGlyph k)) : DigitsLoaded s n (t.apply point) := by
  have hsame (part : Part) (hpart : part ≠ .index) : part.Same t (t.apply point) :=
    same_of_performed? hpoint (by simpa [Instruction.changes] using hpart)
  have hreg (r : Register) : (t.apply point).reg r = t.reg r := hsame (.register r) (by simp)
  refine ⟨?_, ?_, ?_, ?_⟩
  · exact (footprint_of_performed? hpoint).memory.trans h.memory
  · intro r hr
    rw [hreg]
    exact h.digit r hr
  · intro r hr
    rw [hreg]
    exact h.register r hr
  · exact Eq.trans (hsame .screen (by simp)) h.screen

theorem value (h : DigitsLoaded s n t) :
    100 * (t.reg 0).toNat + 10 * (t.reg 1).toNat + (t.reg 2).toNat = n.toNat := by
  have hhundreds : n / 100 = t.reg 0 := Option.some.inj (h.digit 0 (by decide))
  have htens : n % 100 / 10 = t.reg 1 := Option.some.inj (h.digit 1 (by decide))
  have hones : n % 10 = t.reg 2 := Option.some.inj (h.digit 2 (by decide))
  rw [← hhundreds, ← htens, ← hones]
  exact decimalDigits_value n

theorem toNat_le (h : DigitsLoaded s n t) {r : Register} (hr : r ≤ 2) : (t.reg r).toNat ≤ 9 :=
  toNat_le_of_mem_decimalDigits (List.mem_of_getElem? (h.digit r hr))

theorem get_digit (h : DigitsLoaded s n t) {r : Register} (hr : r ≤ 2) :
    t.memory.get (.wrap (s.i.toNat + r.val)) = t.reg r := by
  rw [h.memory]
  exact Memory.get_writeList_of_getElem? (length_decimalDigits_le n) (h.digit r hr)

theorem get_of_ne (h : DigitsLoaded s n t) {p : Address}
    (hp : ∀ r : Register, r ≤ 2 → .wrap (s.i.toNat + r.val) ≠ p) :
    t.memory.get p = s.memory.get p := by
  rw [h.memory]
  refine Memory.get_writeList_of_ne fun j hj ↦ ?_
  obtain ⟨r, hr, rfl⟩ := exists_register_of_lt hj
  exact hp r hr

theorem glyphs (h : DigitsLoaded s n t) (hglyphs : s.memory.restoreGlyphs = s.memory)
    (hplaces : ∀ r : Register, r ≤ 2 → 0x50 ≤ (Address.wrap (s.i.toNat + r.val)).val) :
    t.memory.restoreGlyphs = t.memory := by
  rw [h.memory]
  refine Memory.restoreGlyphs_writeList hglyphs fun j hj ↦ ?_
  obtain ⟨r, hr, rfl⟩ := exists_register_of_lt hj
  exact hplaces r hr

end DigitsLoaded

/-- What is drawn with the index register at the glyph of a number, and what becomes of the flag. -/
theorem glyph_drawn (hglyphs : s.memory.restoreGlyphs = s.memory) (hi : s.i = Glyph.address n)
    (hdraw : s.performed? draw = some (.draw a b 5)) :
    (∀ (px : Fin 64) (py : Fin 32), (s.apply draw).screen.pixel px py =
      (s.screen.pixel px py ^^ decide (Screen.Covers (Glyph.rows (Glyph.digit n))
        (s.reg a).toNat (s.reg b).toNat px py))) ∧
      (s.apply draw).reg .flag =
        if ∃ (px : Fin 64) (py : Fin 32),
          s.screen.pixel px py = true ∧ (s.apply draw).screen.pixel px py = false then 1 else 0 := by
  have hsprite : s.memory.readRange s.i 5 = Glyph.rows (Glyph.digit n) := by
    rw [hi]
    exact Memory.readRange_glyph hglyphs n
  have hfit : (Glyph.rows (Glyph.digit n)).length ≤ Screen.height := by
    rw [Glyph.length_rows]
    decide
  obtain ⟨pc, happly⟩ := exists_pc_of_performed? hdraw
  have hscreen : (s.apply draw).screen =
      (s.screen.draw (Glyph.rows (Glyph.digit n)) (s.reg a).toNat (s.reg b).toNat).1 := by
    rw [happly, ← hsprite]
    rfl
  have hflag : (s.apply draw).reg .flag =
      if (s.screen.draw (Glyph.rows (Glyph.digit n)) (s.reg a).toNat (s.reg b).toNat).2 then 1
      else 0 := by
    rw [reg_of_performed? hdraw, ← hsprite]
    exact reg_setReg_self _ _
  rw [hscreen, hflag]
  refine ⟨Screen.pixel_draw hfit _ _, ?_⟩
  simp only [Screen.draw_collision hfit]

/-- One decimal digit of a register is drawn as its glyph, where the two registers say that hold
the corner right before, and the flag tells whether a lit pixel went dark. All three digits end up
in the first three registers and, since their places are not those of the glyphs, in memory, which
is otherwise as it was. -/
theorem decimal_digit_drawn {s : State} {x k a b : Register} {convert fetch point draw : Action}
    (hglyphs : s.memory.restoreGlyphs = s.memory)
    (hplaces : ∀ r : Register, r ≤ 2 → 0x50 ≤ (Address.wrap (s.i.toNat + r.val)).val) (hk : k ≤ 2)
    (hconvert : s.performed? convert = some (.storeDecimal x))
    (hfetch : (s.run [convert]).performed? fetch = some (.loadRegisters 2))
    (hpoint : (s.run [convert, fetch]).performed? point = some (.pointAtGlyph k))
    (hdraw : (s.run [convert, fetch, point]).performed? draw = some (.draw a b 5)) :
    let u := s.run [convert, fetch, point]
    let t := u.apply draw
    (100 * (t.reg 0).toNat + 10 * (t.reg 1).toNat + (t.reg 2).toNat = (s.reg x).toNat ∧
        (∀ r, r ≤ 2 → (t.reg r).toNat ≤ 9 ∧ u.reg r = t.reg r) ∧
          ∀ r, 2 < r → u.reg r = s.reg r) ∧
      (∀ (px : Fin 64) (py : Fin 32), t.screen.pixel px py =
        (s.screen.pixel px py ^^ decide (Screen.Covers (Glyph.rows (Glyph.digit (t.reg k)))
          (u.reg a).toNat (u.reg b).toNat px py))) ∧
      t.reg .flag =
        (if ∃ (px : Fin 64) (py : Fin 32),
          s.screen.pixel px py = true ∧ t.screen.pixel px py = false then 1 else 0) ∧
      (∀ r, r ≤ 2 → t.memory.get (.wrap (s.i.toNat + r.val)) = t.reg r) ∧
      ∀ p, (∀ r : Register, r ≤ 2 → .wrap (s.i.toNat + r.val) ≠ p) →
        t.memory.get p = s.memory.get p := by
  intro u t
  have hloaded : DigitsLoaded s (s.reg x) u :=
    (digitsLoaded_of_fetch hconvert hfetch).of_pointAtGlyph hpoint
  have hreg (r : Register) (hr : r ≤ 2) : t.reg r = u.reg r := by
    have hne : r ≠ .flag := by
      rintro rfl
      exact absurd hr (by decide)
    have hpart : .register r ∉ (Instruction.draw a b 5).changes u.i := by
      simp [Instruction.changes, hne]
    exact same_of_performed? hdraw hpart
  have hmemory : t.memory = u.memory := (footprint_of_performed? hdraw).memory
  have hshown : u.i = Glyph.address (t.reg k) := by
    have hpart : .register k ∉ (Instruction.pointAtGlyph k).changes (s.run [convert, fetch]).i := by
      simp [Instruction.changes]
    have hkept : u.reg k = (s.run [convert, fetch]).reg k := same_of_performed? hpoint hpart
    rw [hreg k hk, hkept]
    exact index_of_performed? hpoint
  obtain ⟨hpixels, hflag⟩ := glyph_drawn (hloaded.glyphs hglyphs hplaces) hshown hdraw
  rw [hloaded.screen] at hpixels hflag
  refine ⟨⟨?_, ?_, hloaded.register⟩, hpixels, hflag, ?_, ?_⟩
  · rw [hreg 0 (by decide), hreg 1 (by decide), hreg 2 (by decide)]
    exact hloaded.value
  · intro r hr
    rw [hreg r hr]
    exact ⟨hloaded.toNat_le hr, rfl⟩
  · intro r hr
    rw [hmemory, hreg r hr]
    exact hloaded.get_digit hr
  · intro p hp
    rw [hmemory]
    exact hloaded.get_of_ne hp

/-- The digits of 254 are stored at the end of memory. The last one is drawn over the right edge at
the place that `VF` holds before the flag is written there, and it puts out the only lit pixel. -/
theorem decimal_digit_drawn_over_edge :
    let s : State :=
      { initial .fixed with
        screen := Screen.blank.toggle 62 2
        i := 0xFFFD
        v := #v[0, 0, 0, 0, 0, 0, 0, 0, 0, 0, 0, 0, 0, 0, 0, 254] }
    let u := s.run [.execute (.storeDecimal 15), .execute (.loadRegisters 2),
      .execute (.pointAtGlyph 2)]
    let t := u.apply (.execute (.draw 15 0 5))
    s.memory.restoreGlyphs = s.memory ∧
      (∀ r : Register, r ≤ 2 → 0x50 ≤ (Address.wrap (s.i.toNat + r.val)).val) ∧
      t.reg 0 = 2 ∧ t.reg 1 = 5 ∧ t.reg 2 = 4 ∧ t.reg .flag = 1 ∧
      t.screen.pixel 62 2 = false ∧ t.screen.pixel 1 2 = true := by
  intro s u t
  have hperformed (s : State) (ins : Instruction) : s.performed? (.execute ins) = some ins :=
    performed?_eq_some.2 (.inr rfl)
  have hglyphs : s.memory.restoreGlyphs = s.memory := Memory.restoreGlyphs_restoreGlyphs _
  have hplaces : ∀ r : Register, r ≤ 2 → 0x50 ≤ (Address.wrap (s.i.toNat + r.val)).val := by decide
  obtain ⟨⟨hvalue, hdigit, hothers⟩, hpixels, hflag, -⟩ :=
    decimal_digit_drawn hglyphs hplaces (Fin.le_refl 2) (hperformed _ (.storeDecimal 15))
      (hperformed _ _) (hperformed _ _) (hperformed _ (.draw 15 0 5))
  have hsum : 100 * (t.reg 0).toNat + 10 * (t.reg 1).toNat + (t.reg 2).toNat = 254 := hvalue
  have hle (r : Register) (hr : r ≤ 2) : (t.reg r).toNat ≤ 9 := (hdigit r hr).1
  have hdigits : (t.reg 0).toNat = 2 ∧ (t.reg 1).toNat = 5 ∧ (t.reg 2).toNat = 4 := by
    have := hle 1 (by decide)
    have := hle 2 (by decide)
    omega
  have hhundreds : t.reg 0 = 2 := UInt8.toNat_inj.1 hdigits.1
  have htens : t.reg 1 = 5 := UInt8.toNat_inj.1 hdigits.2.1
  have hones : t.reg 2 = 4 := UInt8.toNat_inj.1 hdigits.2.2
  have hx : u.reg 15 = 254 := (hothers 15 (by decide)).trans rfl
  have hy : u.reg 0 = 2 := (hdigit 0 (by decide)).2.trans hhundreds
  have hpixel (px : Fin 64) (py : Fin 32) : t.screen.pixel px py =
      (s.screen.pixel px py ^^ decide (Screen.Covers (Glyph.rows (Glyph.digit 4)) 254 2 px py)) := by
    have h := hpixels px py
    rwa [hones, hx, hy] at h
  have hdark : t.screen.pixel 62 2 = false := (hpixel 62 2).trans (by decide +kernel)
  have hlit : t.screen.pixel 1 2 = true := (hpixel 1 2).trans (by decide +kernel)
  refine ⟨hglyphs, hplaces, hhundreds, htens, hones, hflag.trans (if_pos ?_), hdark, hlit⟩
  exact ⟨62, 2, by decide +kernel, hdark⟩

end State

end Chip8
