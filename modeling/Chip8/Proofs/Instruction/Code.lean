import Chip8.Instruction.Decode

/-!
# The words of an instruction

Every instruction has a word of its own, with zeros in the bits that decoding leaves out. The words
that decode to it differ from this one in those bits only, which tells exactly when two words decode
alike.
-/

namespace Chip8

/-- The words differ at most in bits that decoding leaves out: the second nibble of `0?E0` and
`0?EE`, and the last one of `5xy?` and `9xy?`. -/
def Word.SameForDecoding (a b : Word) : Prop :=
  a = b ∨
    (a.toNat / 0x1000 = 0 ∧ b.toNat / 0x1000 = 0 ∧ a.toNat % 0x100 = b.toNat % 0x100 ∧
      (a.toNat % 0x100 = 0xE0 ∨ a.toNat % 0x100 = 0xEE)) ∨
    (a.toNat / 0x10 = b.toNat / 0x10 ∧ (a.toNat / 0x1000 = 5 ∨ a.toNat / 0x1000 = 9))

theorem Word.toNat_low (w : Word) : w.low.toNat = w.toNat % 0x100 := by
  rw [low, UInt8.toNat_ofNat']

theorem Word.toNat_eq_fields (w : Word) :
    w.toNat = w.family * 0x1000 + w.x.val * 0x100 + w.low.toNat := by
  have hw := w.toNat_lt
  simp only [toNat_low, family, x, Fin.val_ofNat]
  omega

theorem Word.val_target (w : Word) : w.target.val = w.x.val * 0x100 + w.low.toNat := by
  simp only [toNat_low, target, Address.val_wrap, x, Fin.val_ofNat]
  omega

theorem Word.toNat_low_eq_nibbles (w : Word) : w.low.toNat = w.y.val * 0x10 + w.nibble := by
  simp only [toNat_low, nibble, y, Fin.val_ofNat]
  omega

/-- The last nibble of the words of an operation. -/
def Alu.nibble : Alu → Nat
  | .load => 0x0
  | .or => 0x1
  | .and => 0x2
  | .xor => 0x3
  | .add => 0x4
  | .sub => 0x5
  | .shiftRight => 0x6
  | .subFrom => 0x7
  | .shiftLeft => 0xE

theorem Alu.nibble_of_ofNibble? {n : Nat} {op : Alu} (h : ofNibble? n = some op) :
    op.nibble = n := by
  unfold ofNibble? at h
  split at h <;> cases h <;> rfl

def Question.code : Question → Nat
  | .eqByte x b => 0x3000 + x.val * 0x100 + b.toNat
  | .neByte x b => 0x4000 + x.val * 0x100 + b.toNat
  | .eqRegister x y => 0x5000 + x.val * 0x100 + y.val * 0x10
  | .neRegister x y => 0x9000 + x.val * 0x100 + y.val * 0x10
  | .keyDown x => 0xE09E + x.val * 0x100
  | .keyUp x => 0xE0A1 + x.val * 0x100

namespace Instruction

/-- The word of an instruction, with zeros in the bits that decoding leaves out. -/
def code : Instruction → Nat
  | .clearScreen => 0x00E0
  | .ret => 0x00EE
  | .jump target => 0x1000 + target.val
  | .jumpFrom base => 0xB000 + base.val
  | .call target => 0x2000 + target.val
  | .skipIf question => question.code
  | .loadByte x b => 0x6000 + x.val * 0x100 + b.toNat
  | .addByte x b => 0x7000 + x.val * 0x100 + b.toNat
  | .alu op x y => 0x8000 + x.val * 0x100 + y.val * 0x10 + op.nibble
  | .loadIndex target => 0xA000 + target.val
  | .addIndex x => 0xF01E + x.val * 0x100
  | .random x mask => 0xC000 + x.val * 0x100 + mask.toNat
  | .draw x y height => 0xD000 + x.val * 0x100 + y.val * 0x10 + height.toNat
  | .loadDelay x => 0xF007 + x.val * 0x100
  | .setDelay x => 0xF015 + x.val * 0x100
  | .setSound x => 0xF018 + x.val * 0x100
  | .awaitKey x => 0xF00A + x.val * 0x100
  | .pointAtGlyph x => 0xF029 + x.val * 0x100
  | .storeDecimal x => 0xF033 + x.val * 0x100
  | .storeRegisters x => 0xF055 + x.val * 0x100
  | .loadRegisters x => 0xF065 + x.val * 0x100

/-- The bits of a word that decoding leaves out if it decodes to this instruction. -/
def leftOut (w : Word) : Instruction → Nat
  | .clearScreen | .ret => w.x.val * 0x100
  | .skipIf (.eqRegister _ _) | .skipIf (.neRegister _ _) => w.nibble
  | _ => 0

variable {a b w : Word} {ins : Instruction}

theorem code_of_system? (hfamily : w.family = 0) (h : system? w.low.toNat = some ins) :
    w.toNat = ins.code + ins.leftOut w := by
  have hw := w.toNat_eq_fields
  unfold system? at h
  split at h
  all_goals cases h
  all_goals simp only [code, leftOut]
  all_goals omega

theorem code_of_keySkip? (hfamily : w.family = 0xE) (h : keySkip? w.x w.low.toNat = some ins) :
    w.toNat = ins.code + ins.leftOut w := by
  have hw := w.toNat_eq_fields
  unfold keySkip? at h
  split at h
  all_goals cases h
  all_goals simp only [code, Question.code, leftOut]
  all_goals omega

theorem code_of_transfer? (hfamily : w.family = 0xF) (h : transfer? w.x w.low.toNat = some ins) :
    w.toNat = ins.code + ins.leftOut w := by
  have hw := w.toNat_eq_fields
  unfold transfer? at h
  split at h
  all_goals cases h
  all_goals simp only [code, leftOut]
  all_goals omega

/-- What is known of a word that decodes to an instruction: all but the bits left out. -/
theorem toNat_of_ofWord? (h : ofWord? w = some ins) : w.toNat = ins.code + ins.leftOut w := by
  have hfields := w.toNat_eq_fields
  have hnibbles := w.toNat_low_eq_nibbles
  have htarget := w.val_target
  have hlast : w.nibble < 0x10 := Nat.mod_lt _ (by decide)
  unfold ofWord? at h
  split at h
  case h_1 hfamily => exact code_of_system? hfamily h
  case h_15 hfamily => exact code_of_keySkip? hfamily h
  case h_16 h₀ h₁ h₂ h₃ h₄ h₅ h₆ h₇ h₈ h₉ hA hB hC hD hE =>
    have hfamily : w.family < 0x10 := by
      have := w.toNat_lt
      rw [Word.family]
      omega
    have hlast : w.family = 0xF := by grind
    exact code_of_transfer? hlast h
  case h_9 hfamily =>
    obtain ⟨op, hop, rfl⟩ := Option.map_eq_some_iff.1 h
    simp only [code, leftOut, Alu.nibble_of_ofNibble? hop]
    omega
  -- In the other families the fields of the word are the operands as they stand.
  all_goals
    cases h
    simp only [code, Question.code, leftOut, UInt8.toNat_ofNat']
    omega

theorem sameForDecoding_of_code (ha : a.toNat = ins.code + ins.leftOut a)
    (hb : b.toNat = ins.code + ins.leftOut b) : a.SameForDecoding b := by
  cases ins with
  | clearScreen =>
      simp only [code, leftOut] at ha hb
      exact .inr (.inl (by omega))
  | ret =>
      simp only [code, leftOut] at ha hb
      exact .inr (.inl (by omega))
  | skipIf question =>
      have hlast (w : Word) : w.nibble < 0x10 := Nat.mod_lt _ (by decide)
      have hlastA := hlast a
      have hlastB := hlast b
      cases question with
      | eqRegister x y =>
          simp only [code, Question.code, leftOut] at ha hb
          exact .inr (.inr (by omega))
      | neRegister x y =>
          simp only [code, Question.code, leftOut] at ha hb
          exact .inr (.inr (by omega))
      | _ => exact .inl (UInt16.toNat_inj.1 (ha.trans hb.symm))
  | _ => exact .inl (UInt16.toNat_inj.1 (ha.trans hb.symm))

theorem ofWord?_of_family_zero (h : w.family = 0) : ofWord? w = system? w.low.toNat := by
  simp only [ofWord?, h]

theorem ofWord?_of_family_five (h : w.family = 5) :
    ofWord? w = some (.skipIf (.eqRegister w.x w.y)) := by
  simp only [ofWord?, h]

theorem ofWord?_of_family_nine (h : w.family = 9) :
    ofWord? w = some (.skipIf (.neRegister w.x w.y)) := by
  simp only [ofWord?, h]

/-- Words that differ in bits that decoding leaves out are words of an instruction. -/
theorem exists_instruction_of_sameForDecoding (h : a.SameForDecoding b) :
    a = b ∨ ∃ ins, ofWord? a = some ins ∧ ofWord? b = some ins := by
  obtain rfl | ⟨ha, hb, hlow, hsystem⟩ | ⟨hupper, hfamily⟩ := h
  · exact .inl rfl
  · rw [← Word.toNat_low, ← Word.toNat_low] at hlow
    rw [← Word.toNat_low] at hsystem
    rw [ofWord?_of_family_zero ha, ofWord?_of_family_zero hb, ← hlow]
    obtain hsystem | hsystem := hsystem
    · rw [hsystem]
      exact .inr ⟨.clearScreen, rfl, rfl⟩
    · rw [hsystem]
      exact .inr ⟨.ret, rfl, rfl⟩
  · have hsame : b.family = a.family := by
      simp only [Word.family]
      omega
    have hx : b.x = a.x := by
      simp only [Word.x, Fin.ext_iff, Fin.val_ofNat]
      omega
    have hy : b.y = a.y := by
      simp only [Word.y, hupper]
    obtain hfamily | hfamily := hfamily
    · rw [ofWord?_of_family_five hfamily, ofWord?_of_family_five (hsame.trans hfamily), hx, hy]
      exact .inr ⟨_, rfl, rfl⟩
    · rw [ofWord?_of_family_nine hfamily, ofWord?_of_family_nine (hsame.trans hfamily), hx, hy]
      exact .inr ⟨_, rfl, rfl⟩

theorem ofWord_eq_ofWord :
    ofWord a = ofWord b ↔ a = b ∨ ∃ ins, ofWord? a = some ins ∧ ofWord? b = some ins := by
  unfold ofWord
  constructor
  · intro h
    cases ha : ofWord? a with
    | none =>
        cases hb : ofWord? b with
        | none =>
            rw [ha, hb, Except.error.injEq, Unrecognized.mk.injEq] at h
            exact .inl h
        | some ins => simp [ha, hb] at h
    | some ins =>
        cases hb : ofWord? b with
        | none => simp [ha, hb] at h
        | some ins' =>
            rw [ha, hb, Except.ok.injEq] at h
            exact .inr ⟨ins, rfl, congrArg some h.symm⟩
  · rintro (rfl | ⟨ins, ha, hb⟩)
    · rfl
    · rw [ha, hb]

/-- Two words decode alike exactly if they differ at most in bits that decoding leaves out. A word
that is no instruction decodes like no other. -/
theorem ofWord_eq_iff : ofWord a = ofWord b ↔ a.SameForDecoding b := by
  rw [ofWord_eq_ofWord]
  refine ⟨?_, exists_instruction_of_sameForDecoding⟩
  rintro (rfl | ⟨ins, ha, hb⟩)
  · exact .inl rfl
  · exact sameForDecoding_of_code (toNat_of_ofWord? ha) (toNat_of_ofWord? hb)

end Instruction

end Chip8
