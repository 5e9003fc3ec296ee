import Chip8.Listing.Line
import Chip8.Proofs.Instruction.Code
import Chip8.Proofs.Instruction.Text

/-!
# What a plain listing shows

A plain listing has the text of each line and neither addresses nor bytes. It shows a program up to
the bits that decoding leaves out, and shows data apart from instructions.
-/

namespace Chip8.Listing

namespace Content

variable {a b : Word} {c : Content}

/-- What the line starts with if it is data. -/
def keyword : Content → List Char
  | .word _ => ['D', 'W']
  | .byte _ => ['D', 'B']

theorem takeWhile_text_of_data (h : c.instruction? = none) :
    c.text.toList.takeWhile (· ≠ ' ') = c.keyword := by
  cases c with
  | word w =>
      simp only [instruction?] at h
      simp [text, h, keyword]
  | byte b => simp [text, keyword]

theorem text_ne_of_data (h : c.instruction? = none) (ins : Instruction) : c.text ≠ ins.text := by
  intro htext
  have hmnemonic (m : Mnemonic) : m.text.toList ≠ ['D', 'W'] ∧ m.text.toList ≠ ['D', 'B'] := by
    cases m <;> decide
  have hkeyword := takeWhile_text_of_data h
  rw [htext, ins.takeWhile_text] at hkeyword
  cases c with
  | word w => exact (hmnemonic _).1 hkeyword
  | byte b => exact (hmnemonic _).2 hkeyword

theorem text_of_ofWord?_eq_some {ins : Instruction} (h : Instruction.ofWord? a = some ins) :
    (word a).text = ins.text := by
  simp only [text, h]

theorem text_of_ofWord?_eq_none (h : Instruction.ofWord? a = none) :
    (word a).text = "DW " ++ a.text := by
  simp only [text, h]

theorem text_word_eq_iff : (word a).text = (word b).text ↔ a.SameForDecoding b := by
  rw [← Instruction.ofWord_eq_iff, Instruction.ofWord_eq_ofWord]
  constructor
  · intro h
    cases ha : Instruction.ofWord? a with
    | none =>
        cases hb : Instruction.ofWord? b with
        | none =>
            rw [text_of_ofWord?_eq_none ha, text_of_ofWord?_eq_none hb, String.append_right_inj,
              Word.text, Word.text, String.append_right_inj, Hex.text_inj, UInt16.toNat_inj] at h
            exact .inl h
        | some ins =>
            rw [text_of_ofWord?_eq_some hb] at h
            exact absurd h (text_ne_of_data (c := .word a) ha ins)
    | some ins =>
        cases hb : Instruction.ofWord? b with
        | none =>
            rw [text_of_ofWord?_eq_some ha] at h
            exact absurd h.symm (text_ne_of_data (c := .word b) hb ins)
        | some ins' =>
            rw [text_of_ofWord?_eq_some ha, text_of_ofWord?_eq_some hb,
              Instruction.text_inj] at h
            exact .inr ⟨ins, rfl, congrArg some h.symm⟩
  · rintro (rfl | ⟨ins, ha, hb⟩)
    · rfl
    · rw [text_of_ofWord?_eq_some ha, text_of_ofWord?_eq_some hb]

theorem text_byte_eq_iff {x y : UInt8} : (byte x).text = (byte y).text ↔ x = y := by
  rw [text, text, String.append_right_inj, Hex.text_inj, UInt8.toNat_inj]

theorem text_word_ne_byte (w : Word) (x : UInt8) : (word w).text ≠ (byte x).text := by
  intro h
  have hdata : (byte x).instruction? = none := rfl
  cases hw : Instruction.ofWord? w with
  | none =>
      have hkeyword := takeWhile_text_of_data (c := .word w) hw
      rw [h, takeWhile_text_of_data hdata] at hkeyword
      simp [keyword] at hkeyword
  | some ins =>
      rw [text_of_ofWord?_eq_some hw] at h
      exact text_ne_of_data hdata ins h.symm

end Content

/-- The word at an even place of a program. -/
def wordAt (program : List UInt8) (k : Nat) : Word :=
  .ofBytes (program.getD (2 * k) 0) (program.getD (2 * k + 1) 0)

/-- The programs differ at most in bits that decoding leaves out. -/
def SameForDecoding (p q : List UInt8) : Prop :=
  p.length = q.length ∧ (p.length % 2 = 1 → p.getLast? = q.getLast?) ∧
    ∀ k, 2 * k + 1 < p.length → (wordAt p k).SameForDecoding (wordAt q k)

theorem sameForDecoding_cons_cons {b₁ b₂ c₁ c₂ : UInt8} {bs cs : List UInt8} :
    SameForDecoding (b₁ :: b₂ :: bs) (c₁ :: c₂ :: cs) ↔
      Word.SameForDecoding (.ofBytes b₁ b₂) (.ofBytes c₁ c₂) ∧ SameForDecoding bs cs := by
  have hodd (x y : UInt8) (l : List UInt8) (h : l.length % 2 = 1) :
      (x :: y :: l).getLast? = l.getLast? := by
    obtain ⟨z, l, rfl⟩ := List.exists_cons_of_ne_nil (fun hl ↦ by simp [hl] at h : l ≠ [])
    rw [List.getLast?_cons_cons, List.getLast?_cons_cons]
  constructor
  · rintro ⟨hlength, hlast, hwords⟩
    simp only [List.length_cons] at hlength hlast hwords
    refine ⟨hwords 0 (by omega), by omega, ?_, ?_⟩
    · intro h
      rw [← hodd b₁ b₂ bs h, ← hodd c₁ c₂ cs (by omega)]
      exact hlast (by omega)
    · intro k hk
      exact hwords (k + 1) (by omega)
  · rintro ⟨hfirst, hlength, hlast, hwords⟩
    refine ⟨congrArg (· + 2) hlength, ?_, ?_⟩
    · intro h
      simp only [List.length_cons] at h
      rw [hodd b₁ b₂ bs (by omega), hodd c₁ c₂ cs (by omega)]
      exact hlast (by omega)
    · intro k hk
      simp only [List.length_cons] at hk
      cases k with
      | zero => exact hfirst
      | succ k => exact hwords k (by omega)

theorem map_text_sweep_eq_iff {m n : Nat} {p q : List UInt8} :
    ((sweep m p).map fun l ↦ l.content.text) = ((sweep n q).map fun l ↦ l.content.text) ↔
      SameForDecoding p q := by
  fun_induction sweep m p generalizing n q with
  | case1 =>
      rcases q with _ | ⟨c₁, _ | ⟨c₂, cs⟩⟩
      · simp [sweep, SameForDecoding]
      · simp [sweep, SameForDecoding]
      · simp [sweep, SameForDecoding]
  | case2 m b =>
      rcases q with _ | ⟨c₁, _ | ⟨c₂, cs⟩⟩
      · simp [sweep, SameForDecoding]
      · simp [sweep, SameForDecoding, Content.text_byte_eq_iff]
      · simp [sweep, SameForDecoding, (Content.text_word_ne_byte _ _).symm]
  | case3 m b₁ b₂ bs ih =>
      rcases q with _ | ⟨c₁, _ | ⟨c₂, cs⟩⟩
      · simp [sweep, SameForDecoding]
      · simp [sweep, SameForDecoding, Content.text_word_ne_byte]
      · rw [sweep, List.map_cons, List.map_cons, List.cons.injEq, Content.text_word_eq_iff, ih,
          sameForDecoding_cons_cons]

/-- Plain listings lose exactly the bits that decoding leaves out: two programs have the same one if
and only if they differ in nothing else. No two instructions have one text, and no line of data has
the text of an instruction. -/
theorem plain_listings_eq_iff :
    (∀ p q : List UInt8,
      ((lines p).map fun l ↦ l.content.text) = ((lines q).map fun l ↦ l.content.text) ↔
        p.length = q.length ∧ (p.length % 2 = 1 → p.getLast? = q.getLast?) ∧
          ∀ k, 2 * k + 1 < p.length → (wordAt p k).SameForDecoding (wordAt q k)) ∧
      (∀ ins ins' : Instruction, ins.text = ins'.text ↔ ins = ins') ∧
      ∀ (c : Content) (ins : Instruction), c.instruction? = none → c.text ≠ ins.text := by
  refine ⟨?_, ?_, ?_⟩
  · intro p q
    exact map_text_sweep_eq_iff
  · intro ins ins'
    exact Instruction.text_inj
  · intro c ins h
    exact Content.text_ne_of_data h ins

end Chip8.Listing
