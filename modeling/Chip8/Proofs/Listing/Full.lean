import Chip8.Listing.Dump
import Chip8.Proofs.Instruction.Text
import Chip8.Proofs.Listing.Sweep

/-!
# What a full listing shows

The lines of a full listing have the address and the bytes in front of the text. The column of bytes
has one width for all lines, so two lines for one address can be told apart by it, whatever follows,
and the listing gives the program back.
-/

namespace Chip8.Listing

/-! ### Columns -/

namespace Content

variable {c c' : Content}

theorem toList_column_word (w : Word) :
    (word w).column.toList = Hex.padded 2 w.high.toNat ++ ' ' :: Hex.padded 2 w.low.toNat := by
  simp [column]

theorem toList_column_byte (x : UInt8) :
    (byte x).column.toList = Hex.padded 2 x.toNat ++ [' ', ' ', ' '] := by
  simp [column]

theorem length_padded_byte (x : UInt8) : (Hex.padded 2 x.toNat).length = 2 :=
  Hex.length_padded_of_lt (by decide) x.toNat_lt

theorem length_column (c : Content) : c.column.toList.length = 5 := by
  cases c with
  | word w =>
      rw [toList_column_word, List.length_append, List.length_cons, length_padded_byte,
        length_padded_byte]
  | byte x =>
      rw [toList_column_byte, List.length_append, length_padded_byte]
      rfl

theorem column_word_ne_byte (w : Word) (x : UInt8) : (word w).column ≠ (byte x).column := by
  intro h
  rw [← String.toList_inj, toList_column_word, toList_column_byte] at h
  have hlow : ' ' :: Hex.padded 2 w.low.toNat = [' ', ' ', ' '] :=
    List.append_inj_right h (by rw [length_padded_byte, length_padded_byte])
  have hspace : ' ' ∈ Hex.padded 2 w.low.toNat := by
    rw [(List.cons.inj hlow).2]
    exact List.mem_cons_self
  exact Hex.notMem_padded (by decide) hspace

/-- The column shows the bytes, and how many they are. -/
theorem column_inj : c.column = c'.column ↔ c = c' := by
  refine ⟨fun h ↦ ?_, congrArg column⟩
  cases c with
  | word w =>
      cases c' with
      | word w' =>
          rw [← String.toList_inj, toList_column_word, toList_column_word] at h
          obtain ⟨hhigh, hlow⟩ :=
            List.append_inj h (by rw [length_padded_byte, length_padded_byte])
          rw [Hex.padded_inj, UInt8.toNat_inj] at hhigh
          rw [List.cons.injEq, Hex.padded_inj, UInt8.toNat_inj] at hlow
          rw [← w.ofBytes_high_low, hhigh, hlow.2, w'.ofBytes_high_low]
      | byte x => exact absurd h (column_word_ne_byte w x)
  | byte x =>
      cases c' with
      | word w' => exact absurd h.symm (column_word_ne_byte w' x)
      | byte x' =>
          rw [← String.toList_inj, toList_column_byte, toList_column_byte,
            List.append_cancel_right_eq, Hex.padded_inj, UInt8.toNat_inj] at h
          rw [h]

/-- The column has no characters but digits and spaces. -/
theorem notMem_column {a : Char} (ha : Operand.isOperandChar a = false) (hspace : a ≠ ' ')
    (c : Content) : a ∉ c.column.toList := by
  cases c with
  | word w =>
      rw [toList_column_word]
      simp [Operand.notMem_padded ha, hspace]
  | byte x =>
      rw [toList_column_byte]
      simp [Operand.notMem_padded ha, hspace]

/-- Apart from spaces and commas, the text has no characters but those of operands. -/
theorem notMem_text {a : Char} (ha : Operand.isOperandChar a = false) (hspace : a ≠ ' ')
    (hcomma : a ≠ ',') (c : Content) : a ∉ c.text.toList := by
  have hkeyword : ∀ b ∈ ['D', 'W', 'B', '#'], a ≠ b := by
    rintro b hb rfl
    have hall : ['D', 'W', 'B', '#'].all Operand.isOperandChar = true := by decide
    rw [List.all_eq_true.1 hall a hb] at ha
    cases ha
  simp only [List.forall_mem_cons] at hkeyword
  cases c with
  | word w =>
      simp only [text]
      split
      · next ins _ => exact ins.notMem_text ha hspace hcomma
      · simp [Word.text, Operand.notMem_padded ha, hspace, hkeyword]
  | byte x => simp [text, Operand.notMem_padded ha, hspace, hkeyword]

end Content

/-! ### Lines -/

namespace Line

variable {l l' : Line} {r r' : List Char}

theorem toList_text (l : Line) :
    l.text.toList = Hex.padded 3 l.address ++
      ' ' :: ' ' :: (l.content.column.toList ++ ' ' :: ' ' :: l.content.text.toList) := by
  simp [text]

theorem toList_ended (l : Line) : l.ended.toList = l.text.toList ++ ['\n'] := by
  simp [ended]

theorem notMem_text {a : Char} (ha : Operand.isOperandChar a = false) (hspace : a ≠ ' ')
    (hcomma : a ≠ ',') (l : Line) : a ∉ l.text.toList := by
  rw [toList_text]
  simp [Operand.notMem_padded ha, l.content.notMem_column ha hspace,
    l.content.notMem_text ha hspace hcomma, hspace]

/-- Two lines for one address can be told apart whatever comes after them. -/
theorem ended_append_inj (haddress : l.address = l'.address)
    (h : l.ended.toList ++ r = l'.ended.toList ++ r') : l = l' ∧ r = r' := by
  have hcontent : l.content = l'.content := by
    rw [toList_ended, toList_ended, toList_text, toList_text, haddress] at h
    simp only [List.append_assoc, List.cons_append, List.append_cancel_left_eq,
      List.cons.injEq, true_and] at h
    have hcolumn :=
      List.append_inj_left h (by rw [Content.length_column, Content.length_column])
    exact Content.column_inj.1 (String.toList_inj.1 hcolumn)
  obtain rfl : l = l' := by
    cases l
    cases l'
    simp_all
  exact ⟨rfl, List.append_cancel_left h⟩

end Line

/-! ### Listings -/

variable {address : Nat} {p q : List UInt8} {ls ls' : List Line}

theorem toList_join_ended_cons (l : Line) (ls : List Line) :
    (String.join ((l :: ls).map Line.ended)).toList =
      l.ended.toList ++ (String.join (ls.map Line.ended)).toList := by
  simp [String.toList_join]

theorem join_ended_cons_ne_nil (l : Line) (ls : List Line) :
    (String.join ((l :: ls).map Line.ended)).toList ≠ [] := by
  rw [toList_join_ended_cons, l.toList_ended]
  simp

theorem splitOn_join_ended (ls : List Line) :
    (String.join (ls.map Line.ended)).toList.splitOn '\n' =
      ls.map (fun l ↦ l.text.toList) ++ [[]] := by
  induction ls with
  | nil => rfl
  | cons l ls ih =>
      rw [toList_join_ended_cons, Line.toList_ended, List.append_assoc, List.singleton_append,
        List.splitOn_append_cons_self_of_not_mem (l.notMem_text (by decide) (by decide) (by decide)),
        ih]
      rfl

/-- Lines in the same places with the same addresses are read off the text one after another. -/
theorem join_ended_inj
    (haddress : ∀ (k : Nat) (l l' : Line), ls[k]? = some l → ls'[k]? = some l' →
      l.address = l'.address)
    (h : (String.join (ls.map Line.ended)).toList = (String.join (ls'.map Line.ended)).toList) :
    ls = ls' := by
  induction ls generalizing ls' with
  | nil =>
      cases ls' with
      | nil => rfl
      | cons l' ls' => exact absurd h.symm (join_ended_cons_ne_nil l' ls')
  | cons l ls ih =>
      cases ls' with
      | nil => exact absurd h (join_ended_cons_ne_nil l ls)
      | cons l' ls' =>
          rw [toList_join_ended_cons, toList_join_ended_cons] at h
          obtain ⟨rfl, hrest⟩ := Line.ended_append_inj (haddress 0 l l' rfl rfl) h
          rw [ih (fun k ↦ haddress (k + 1)) hrest]

theorem sweep_inj : sweep address p = sweep address q ↔ p = q := by
  refine ⟨fun h ↦ ?_, congrArg (sweep address)⟩
  rw [← flatMap_bytes_sweep address p, h, flatMap_bytes_sweep]

/-- A full listing loses nothing: two programs have the same one only if they are equal. Cut at the
line breaks it falls into the texts of the lines, and each of these starts with the address of its
line, in three digits up to `0xFFF` and in more beyond. -/
theorem dump_inj :
    (∀ p q : List UInt8, dump p = dump q ↔ p = q) ∧
      ∀ p : List UInt8,
        (dump p).toList.splitOn '\n' = (lines p).map (fun l ↦ l.text.toList) ++ [[]] ∧
          ∀ k l, (lines p)[k]? = some l →
            ∃ digits rest, l.text.toList = digits ++ ' ' :: rest ∧
              digits = Hex.padded 3 (0x200 + 2 * k) ∧
              if 0x200 + 2 * k ≤ 0xFFF then digits.length = 3 else 3 < digits.length := by
  refine ⟨?_, ?_⟩
  · intro p q
    refine ⟨fun h ↦ ?_, congrArg dump⟩
    have haddress : ∀ (k : Nat) (l l' : Line), (lines p)[k]? = some l → (lines q)[k]? = some l' →
        l.address = l'.address := by
      intro k l l' hl hl'
      rw [address_of_line hl, address_of_line hl']
    exact sweep_inj.1 (join_ended_inj haddress (String.toList_inj.2 h))
  · intro p
    refine ⟨splitOn_join_ended _, ?_⟩
    intro k l hl
    have haddress : l.address = 0x200 + 2 * k := address_of_line hl
    refine ⟨_, _, haddress ▸ l.toList_text, rfl, ?_⟩
    split
    · next hle => exact Hex.length_padded_of_lt (by decide) (Nat.lt_of_le_of_lt hle (by decide))
    · next hgt => exact Hex.lt_length_padded_of_le (Nat.lt_of_not_le hgt)

end Chip8.Listing
