import Chip8.Instruction.Assembly
import Chip8.Proofs.Text.Hex
import Chip8.Proofs.Text.Join

/-!
# Reading instructions back

The text of an instruction shows its mnemonic up to the first space and its operands between commas,
and these two give the instruction back. So no two instructions have one text.
-/

namespace Chip8

theorem Mnemonic.text_inj {m m' : Mnemonic} : m.text = m'.text ↔ m = m' := by
  refine ⟨fun h ↦ ?_, congrArg text⟩
  revert h
  cases m <;> cases m' <;> decide

/-- The characters that mnemonics are written with, among others. -/
def Mnemonic.letters : List Char :=
  "ABCDEFGHIJKLMNOPQRSTUVWXYZ".toList

theorem Mnemonic.notMem_text {c : Char} (hc : c ∉ letters) (m : Mnemonic) : c ∉ m.text.toList := by
  have hall : m.text.toList ⊆ letters := by
    cases m <;> decide
  exact fun hmem ↦ hc (hall hmem)

/-! ### Operands -/

namespace Operand

theorem toList_text_register (x : Register) :
    (register x).text.toList = 'V' :: Hex.padded 1 x.val := by
  simp [text, Register.text]

theorem toList_text_immediate (b : UInt8) :
    (immediate b).text.toList = '#' :: Hex.padded 2 b.toNat := by
  simp [text]

theorem toList_text_address (a : Address) :
    (address a).text.toList = '#' :: Hex.padded 3 a.val := by
  simp [text, Address.text]

theorem toList_text_height (n : UInt8) :
    (height n).text.toList = Nat.toDigits 10 n.toNat := by
  simp [text, Nat.repr_eq_ofList_toDigits]

def isHeight : Operand → Bool
  | height _ => true
  | _ => false

/-- Heights are told from all other operands by their first character. -/
theorem isDigit_head (o : Operand) : (o.text.toList.headD ' ').isDigit = o.isHeight := by
  cases o with
  | register x => rw [toList_text_register]; rfl
  | immediate b => rw [toList_text_immediate]; rfl
  | address a => rw [toList_text_address]; rfl
  | height n =>
      rw [toList_text_height]
      obtain ⟨c, cs, hcs⟩ :=
        List.exists_cons_of_ne_nil (Nat.toDigits_ne_nil (n := n.toNat) (b := 10))
      rw [hcs]
      exact Nat.isDigit_of_mem_toDigits (by decide) (by decide) (hcs ▸ List.mem_cons_self)
  | _ => decide

theorem immediate_text_ne_address (b : UInt8) (a : Address) :
    (immediate b).text.toList ≠ (address a).text.toList := by
  intro h
  have hb : b.toNat < 16 ^ 2 := b.toNat_lt
  have ha : a.val < 16 ^ 3 := a.isLt
  have hlength := congrArg List.length h
  rw [toList_text_immediate, toList_text_address, List.length_cons, List.length_cons,
    Hex.length_padded_of_lt (by decide) hb, Hex.length_padded_of_lt (by decide) ha] at hlength
  exact absurd hlength (by decide)

theorem text_inj {o o' : Operand} : o.text = o'.text ↔ o = o' := by
  refine ⟨fun h ↦ ?_, congrArg text⟩
  have hheight : o.isHeight = o'.isHeight := by
    rw [← isDigit_head, ← isDigit_head, h]
  rw [← String.toList_inj] at h
  cases o <;> cases o'
  case register.register x y =>
    rw [toList_text_register, toList_text_register, List.cons.injEq, Hex.padded_inj] at h
    rw [Fin.ext h.2]
  case immediate.immediate b b' =>
    rw [toList_text_immediate, toList_text_immediate, List.cons.injEq, Hex.padded_inj] at h
    rw [UInt8.toNat_inj.1 h.2]
  case address.address a a' =>
    rw [toList_text_address, toList_text_address, List.cons.injEq, Hex.padded_inj] at h
    rw [Fin.ext h.2]
  case height.height n n' =>
    rw [toList_text_height, toList_text_height] at h
    have hvalue := congrArg (Nat.ofDigitChars 10 · 0) h
    simp only [Nat.ofDigitChars_ten_toDigits] at hvalue
    rw [UInt8.toNat_inj.1 hvalue]
  case immediate.address b a => exact absurd h (immediate_text_ne_address b a)
  case address.immediate a b => exact absurd h.symm (immediate_text_ne_address b a)
  -- What is left has no numbers in it, or other first characters, or a height on one side only.
  all_goals
    simp_all [isHeight, text, Register.text, Address.text]

/-- The characters that operands are written with. -/
def isOperandChar (c : Char) : Bool :=
  c.isDigit || c ∈ Mnemonic.letters || c = '#' || c = '[' || c = ']'

theorem isOperandChar_of_mem_padded {w n : Nat} {c : Char} (h : c ∈ Hex.padded w n) :
    isOperandChar c = true := by
  have hdigit : ∀ d : Fin 16, isOperandChar (Hex.digit d) = true := by decide
  obtain ⟨d, hd, rfl⟩ := Hex.exists_digit_of_mem_fixed h
  exact hdigit ⟨d, hd⟩

theorem notMem_padded {w n : Nat} {c : Char} (hc : isOperandChar c = false) :
    c ∉ Hex.padded w n := by
  intro hmem
  rw [isOperandChar_of_mem_padded hmem] at hc
  cases hc

theorem isOperandChar_of_mem_text {o : Operand} {c : Char} (h : c ∈ o.text.toList) :
    isOperandChar c = true := by
  have hcons {a : Char} {w n : Nat} (ha : isOperandChar a = true)
      (hmem : c ∈ a :: Hex.padded w n) : isOperandChar c = true := by
    obtain rfl | hmem := List.mem_cons.1 hmem
    · exact ha
    · exact isOperandChar_of_mem_padded hmem
  have hspelled (hall : o.text.toList.all isOperandChar = true) : isOperandChar c = true :=
    List.all_eq_true.1 hall c h
  cases o with
  | register x =>
      rw [toList_text_register] at h
      exact hcons (by decide) h
  | immediate b =>
      rw [toList_text_immediate] at h
      exact hcons (by decide) h
  | address a =>
      rw [toList_text_address] at h
      exact hcons (by decide) h
  | height n =>
      rw [toList_text_height] at h
      have hdigit := Nat.isDigit_of_mem_toDigits (by decide) (by decide) h
      simp only [isOperandChar, hdigit, Bool.true_or]
  | _ => exact hspelled (by decide)

theorem notMem_text {c : Char} (hc : isOperandChar c = false) (o : Operand) :
    c ∉ o.text.toList := by
  intro hmem
  rw [isOperandChar_of_mem_text hmem] at hc
  cases hc

end Operand

/-! ### Instructions -/

namespace Instruction

/-- The instruction that a mnemonic and its operands stand for. -/
def assemble? : Mnemonic → List Operand → Option Instruction
  | .cls, [] => some .clearScreen
  | .ret, [] => some .ret
  | .jp, [.address a] => some (.jump a)
  | .jp, [.register _, .address a] => some (.jumpFrom a)
  | .call, [.address a] => some (.call a)
  | .se, [.register x, .immediate b] => some (.skipIf (.eqByte x b))
  | .se, [.register x, .register y] => some (.skipIf (.eqRegister x y))
  | .sne, [.register x, .immediate b] => some (.skipIf (.neByte x b))
  | .sne, [.register x, .register y] => some (.skipIf (.neRegister x y))
  | .ld, [.register x, .immediate b] => some (.loadByte x b)
  | .ld, [.register x, .register y] => some (.alu .load x y)
  | .ld, [.index, .address a] => some (.loadIndex a)
  | .ld, [.register x, .delay] => some (.loadDelay x)
  | .ld, [.delay, .register x] => some (.setDelay x)
  | .ld, [.sound, .register x] => some (.setSound x)
  | .ld, [.register x, .key] => some (.awaitKey x)
  | .ld, [.glyph, .register x] => some (.pointAtGlyph x)
  | .ld, [.decimal, .register x] => some (.storeDecimal x)
  | .ld, [.indirect, .register x] => some (.storeRegisters x)
  | .ld, [.register x, .indirect] => some (.loadRegisters x)
  | .add, [.register x, .immediate b] => some (.addByte x b)
  | .add, [.register x, .register y] => some (.alu .add x y)
  | .add, [.index, .register x] => some (.addIndex x)
  | .or, [.register x, .register y] => some (.alu .or x y)
  | .and, [.register x, .register y] => some (.alu .and x y)
  | .xor, [.register x, .register y] => some (.alu .xor x y)
  | .sub, [.register x, .register y] => some (.alu .sub x y)
  | .shr, [.register x, .register y] => some (.alu .shiftRight x y)
  | .subn, [.register x, .register y] => some (.alu .subFrom x y)
  | .shl, [.register x, .register y] => some (.alu .shiftLeft x y)
  | .rnd, [.register x, .immediate b] => some (.random x b)
  | .drw, [.register x, .register y, .height n] => some (.draw x y n)
  | .skp, [.register x] => some (.skipIf (.keyDown x))
  | .sknp, [.register x] => some (.skipIf (.keyUp x))
  | _, _ => none

theorem assemble?_mnemonic_operands (ins : Instruction) :
    assemble? ins.mnemonic ins.operands = some ins := by
  cases ins with
  | skipIf question => cases question <;> rfl
  | alu op x y => cases op <;> rfl
  | _ => rfl

theorem toList_text (ins : Instruction) :
    ins.text.toList = ins.mnemonic.text.toList ++
      if ins.operands = [] then []
      else ' ' :: [',', ' '].intercalate (ins.operands.map fun o ↦ o.text.toList) := by
  unfold text
  split
  · next h => rw [if_pos h, List.append_nil]
  · next h =>
    rw [if_neg h]
    simp [List.map_map, Function.comp_def]

/-- Apart from spaces and commas, the text has no characters but those of operands. -/
theorem notMem_text {c : Char} (hc : Operand.isOperandChar c = false) (hspace : c ≠ ' ')
    (hcomma : c ≠ ',') (ins : Instruction) : c ∉ ins.text.toList := by
  have hmnemonic : c ∉ Mnemonic.letters := by
    simp only [Operand.isOperandChar, Bool.or_eq_false_iff, decide_eq_false_iff_not] at hc
    exact hc.1.1.1.2
  rw [toList_text, List.mem_append, not_or]
  refine ⟨ins.mnemonic.notMem_text hmnemonic, ?_⟩
  split
  · exact List.not_mem_nil
  · intro hmem
    obtain rfl | hmem := List.mem_cons.1 hmem
    · exact hspace rfl
    · obtain hmark | ⟨t, ht, hmem⟩ := Text.mem_of_mem_intercalate hmem
      · simp [hspace, hcomma] at hmark
      · obtain ⟨o, -, rfl⟩ := List.mem_map.1 ht
        exact o.notMem_text hc hmem

/-- The mnemonic is the text up to the first space. -/
theorem takeWhile_text (ins : Instruction) :
    ins.text.toList.takeWhile (· ≠ ' ') = ins.mnemonic.text.toList := by
  have hspace : ' ' ∉ ins.mnemonic.text.toList := ins.mnemonic.notMem_text (by decide)
  rw [toList_text]
  split
  · rw [List.append_nil]
    exact Text.takeWhile_of_notMem hspace
  · exact Text.takeWhile_append_mark hspace

theorem operands_eq_of_text {ins ins' : Instruction} (hmnemonic : ins.mnemonic = ins'.mnemonic)
    (h : ins.text = ins'.text) : ins.operands = ins'.operands := by
  have hcomma (os : List Operand) : ∀ t ∈ os.map fun o ↦ o.text.toList, ',' ∉ t := by
    intro t ht
    obtain ⟨o, -, rfl⟩ := List.mem_map.1 ht
    exact o.notMem_text (by decide)
  rw [← String.toList_inj, toList_text, toList_text, hmnemonic, List.append_cancel_left_eq] at h
  split at h
  · next hnone =>
    split at h
    · next hnone' => rw [hnone, hnone']
    · cases h
  · next hsome =>
    split at h
    · cases h
    · next hsome' =>
      rw [List.cons.injEq, Text.intercalate_inj (by simpa using hsome) (by simpa using hsome')
        (hcomma _) (hcomma _)] at h
      refine (List.map_inj_right fun o o' ho ↦ ?_).1 h.2
      rwa [String.toList_inj, Operand.text_inj] at ho

/-- No two instructions have one text. -/
theorem text_inj {ins ins' : Instruction} : ins.text = ins'.text ↔ ins = ins' := by
  refine ⟨fun h ↦ ?_, congrArg text⟩
  have hmnemonic : ins.mnemonic = ins'.mnemonic := by
    rw [← Mnemonic.text_inj, ← String.toList_inj, ← takeWhile_text, ← takeWhile_text, h]
  have hassemble := assemble?_mnemonic_operands ins
  rw [hmnemonic, operands_eq_of_text hmnemonic h, assemble?_mnemonic_operands] at hassemble
  exact (Option.some.inj hassemble).symm

end Instruction

end Chip8
