import Chip8.State.Execute

/-!
# Arithmetic and its flag

An operation takes its flag from the operands as they were and writes it after the result. So the
flag is right whichever registers the operands are, and where the result is not overwritten by it,
the two together tell the exact sum, difference or double.
-/

namespace Chip8

namespace Alu

/-! ### Bytes as numbers -/

theorem add_with_carry (a b : UInt8) :
    256 * (if 255 < a.toNat + b.toNat then 1 else 0) + (a + b).toNat = a.toNat + b.toNat := by
  have ha := a.toNat_lt
  have hb := b.toNat_lt
  rw [UInt8.toNat_add]
  split <;> omega

theorem toNat_sub_eq_emod (a b : UInt8) :
    ((a - b).toNat : Int) = ((a.toNat : Int) - b.toNat) % 256 := by
  have ha := a.toNat_lt
  have hb := b.toNat_lt
  rw [UInt8.toNat_sub]
  omega

/-- A difference that does not go below zero is exact. -/
theorem toNat_sub_eq_iff (a b : UInt8) :
    ((a - b).toNat : Int) = (a.toNat : Int) - b.toNat ↔ b.toNat < a.toNat ∨ a.toNat = b.toNat := by
  have ha := a.toNat_lt
  have hb := b.toNat_lt
  rw [UInt8.toNat_sub]
  omega

theorem double_half_add (a : UInt8) : 2 * (a >>> 1).toNat + a.toNat % 2 = a.toNat := by
  have hhalf : (a >>> 1).toNat = a.toNat / 2 := by
    rw [UInt8.toNat_shiftRight]
    exact Nat.shiftRight_eq_div_pow a.toNat 1
  rw [hhalf]
  omega

theorem double_with_carry (a : UInt8) : (a <<< 1).toNat + 256 * (a.toNat / 128) = 2 * a.toNat := by
  have ha := a.toNat_lt
  have hdouble : (a <<< 1).toNat = a.toNat * 2 % 256 := by
    rw [UInt8.toNat_shiftLeft]
    exact congrArg (· % 256) (Nat.shiftLeft_eq a.toNat 1)
  rw [hdouble]
  omega

end Alu

namespace State

variable {s : State} {op : Alu} {x y : Register}

/-! ### Registers -/

theorem reg_advance (s : State) (ins : Instruction) (z : Register) :
    (s.advance ins).reg z = s.reg z := by
  unfold advance
  split <;> rfl

/-- The flag comes last, so it stands in `VF` even if the result was written there. -/
theorem toNat_flag_compute {p : Prop} [Decidable p]
    (h : op.flag? (s.reg x) (s.reg y) = some (decide p)) :
    ((s.compute op x y).reg .flag).toNat = if p then 1 else 0 := by
  simp only [compute, h, setFlag, reg_setReg_self, decide_eq_true_eq]
  split <;> rfl

/-- The sum 144 in `VF` gives way to its flag. -/
example :
    let s := (initial .fixed).setReg .flag 200
    (s.compute .add .flag .flag).reg .flag = 1 := by decide

theorem reg_compute (hx : x ≠ .flag) :
    (s.compute op x y).reg x = op.result (s.reg x) (s.reg y) := by
  simp only [compute]
  split
  · rw [setFlag, reg_setReg, if_neg hx.symm, reg_setReg_self]
  · exact reg_setReg_self x _

/-- Each flag is that of the operands before the operation, also if an operand or the result is in
`VF`. A result in another register is exact together with its flag, and a difference is exact by
itself if it has the flag or is zero. A sum with an immediate byte goes round and leaves no flag. -/
theorem arithmetic_leaves_flag (s : State) (x y : Register) :
    let a := (s.reg x).toNat
    let b := (s.reg y).toNat
    let after (op : Alu) := (s.execute (.alu op x y)).advance (.alu op x y)
    let result (op : Alu) := ((after op).reg x).toNat
    let flag (op : Alu) := ((after op).reg .flag).toNat
    (flag .add = (if 255 < a + b then 1 else 0) ∧ flag .sub = (if b < a then 1 else 0) ∧
        flag .subFrom = (if a < b then 1 else 0) ∧ flag .shiftRight = a % 2 ∧
        flag .shiftLeft = a / 128) ∧
      (x ≠ .flag →
        256 * flag .add + result .add = a + b ∧
          ((result .sub : Int) = ((a : Int) - b) % 256 ∧
            ((result .sub : Int) = a - b ↔ flag .sub = 1 ∨ a = b)) ∧
          ((result .subFrom : Int) = ((b : Int) - a) % 256 ∧
            ((result .subFrom : Int) = b - a ↔ flag .subFrom = 1 ∨ a = b)) ∧
          2 * result .shiftRight + flag .shiftRight = a ∧
          result .shiftLeft + 256 * flag .shiftLeft = 2 * a) ∧
      ∀ byte : UInt8,
        let t := (s.execute (.addByte x byte)).advance (.addByte x byte)
        (t.reg x).toNat = (a + byte.toNat) % 256 ∧ ∀ z, z ≠ x → t.reg z = s.reg z := by
  intro a b after result flag
  have hflag {op : Alu} {p : Prop} [Decidable p]
      (h : op.flag? (s.reg x) (s.reg y) = some (decide p)) : flag op = if p then 1 else 0 :=
    (congrArg UInt8.toNat (reg_advance _ _ _)).trans (toNat_flag_compute h)
  have hadd : flag .add = if 255 < a + b then 1 else 0 := hflag rfl
  have hsub : flag .sub = if b < a then 1 else 0 := hflag rfl
  have hsubFrom : flag .subFrom = if a < b then 1 else 0 := hflag rfl
  have hright : flag .shiftRight = a % 2 := by
    rw [hflag rfl]
    split <;> omega
  have hleft : flag .shiftLeft = a / 128 := by
    have ha : a < 256 := (s.reg x).toNat_lt
    rw [hflag rfl]
    split <;> omega
  refine ⟨⟨hadd, hsub, hsubFrom, hright, hleft⟩, ?_, ?_⟩
  · intro hx
    have hresult (op : Alu) : result op = (op.result (s.reg x) (s.reg y)).toNat :=
      congrArg UInt8.toNat ((reg_advance _ _ _).trans (reg_compute hx))
    have hone (p : Prop) [Decidable p] : (if p then 1 else 0) = 1 ↔ p := by
      by_cases h : p <;> simp [h]
    simp only [hresult, hadd, hsub, hsubFrom, hright, hleft, hone]
    refine ⟨Alu.add_with_carry _ _, ⟨Alu.toNat_sub_eq_emod _ _, Alu.toNat_sub_eq_iff _ _⟩,
      ⟨Alu.toNat_sub_eq_emod _ _, ?_⟩, Alu.double_half_add _, Alu.double_with_carry _⟩
    rw [@eq_comm Nat a b]
    exact Alu.toNat_sub_eq_iff _ _
  · intro byte t
    have ht (z : Register) : t.reg z = if x = z then s.reg x + byte else s.reg z :=
      (reg_advance _ _ z).trans (reg_setReg x z _)
    constructor
    · rw [ht, if_pos rfl]
      exact UInt8.toNat_add _ _
    · intro z hz
      rw [ht, if_neg hz.symm]

end State

end Chip8
