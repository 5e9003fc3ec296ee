import Chip8.Listing.Selection
import Chip8.Proofs.Text.Numeral
import Mathlib.Data.List.TakeWhile

/-!
# Which texts name an address

The bounds of a listing are hexadecimal numerals with marks in front. The marks are taken off
greedily, and since no mark can be mistaken for a sign or a digit this never takes too much: just the
texts that are built of marks, a sign and digits are read, and what they name is the number.
-/

namespace Chip8.Listing

/-- The text names the address: any number of `#`, any number of `0x`, possibly a plus sign, and a
hexadecimal number of any length that lies in memory. -/
def Names (text : String) (n : Nat) : Prop :=
  ∃ (i j : Nat) (sign digits : List Char),
    text.toList = List.replicate i '#' ++ (List.replicate j ['0', 'x']).flatten ++ sign ++ digits ∧
      (sign = [] ∨ sign = ['+']) ∧ Numeral.Digits 16 digits n ∧ n < 0x1000

variable {text : String} {n : Nat} {cs : List Char}

/-! ### Marks -/

theorem exists_append_dropWhile (a : Char) (cs : List Char) :
    ∃ i, cs = List.replicate i a ++ cs.dropWhile (· = a) := by
  refine ⟨(cs.takeWhile (· = a)).length, ?_⟩
  have hmarks : cs.takeWhile (· = a) = List.replicate (cs.takeWhile (· = a)).length a := by
    rw [List.eq_replicate_iff]
    refine ⟨rfl, fun b hb ↦ ?_⟩
    simpa using List.mem_takeWhile_imp hb
  rw [← hmarks, List.takeWhile_append_dropWhile]

theorem dropWhile_replicate_append {a : Char} (h : a ∉ cs) (i : Nat) :
    (List.replicate i a ++ cs).dropWhile (· = a) = cs := by
  rw [List.dropWhile_append_of_pos (by simp)]
  cases cs with
  | nil => rfl
  | cons b cs =>
      have hb : b ≠ a := (List.ne_of_not_mem_cons h).symm
      exact List.dropWhile_cons_of_neg (by simpa using hb)

theorem exists_append_dropHexMarks (cs : List Char) :
    ∃ j, cs = (List.replicate j ['0', 'x']).flatten ++ dropHexMarks cs := by
  fun_induction dropHexMarks cs with
  | case1 cs ih =>
      obtain ⟨j, hj⟩ := ih
      refine ⟨j + 1, ?_⟩
      rw [List.replicate_succ, List.flatten_cons, List.append_assoc, ← hj]
      rfl
  | case2 cs _ => exact ⟨0, rfl⟩

theorem dropHexMarks_append (j : Nat) (cs : List Char) :
    dropHexMarks ((List.replicate j ['0', 'x']).flatten ++ cs) = dropHexMarks cs := by
  induction j with
  | zero => rfl
  | succ j ih => exact ih

theorem dropHexMarks_of_notMem (h : 'x' ∉ cs) : dropHexMarks cs = cs := by
  unfold dropHexMarks
  split
  · simp at h
  · rfl

/-! ### Addresses -/

theorem parseAddress_of_names (h : Names text n) : parseAddress text = .ok n := by
  obtain ⟨i, j, sign, digits, htext, hsign, hdigits, hn⟩ := h
  have hrest {c : Char} (hc : Hex.digitValue? c = none) (hplus : c ≠ '+') : c ∉ sign ++ digits := by
    rw [List.mem_append, not_or]
    refine ⟨?_, hdigits.notMem (by decide) hc⟩
    obtain rfl | rfl := hsign
    · exact List.not_mem_nil
    · simpa using hplus
  have hmark : '#' ∉ (List.replicate j ['0', 'x']).flatten ++ (sign ++ digits) := by
    rw [List.mem_append, not_or]
    exact ⟨by simp, hrest (by decide) (by decide)⟩
  rw [parseAddress, htext, List.append_assoc, List.append_assoc, dropWhile_replicate_append hmark,
    dropHexMarks_append, dropHexMarks_of_notMem (hrest (by decide) (by decide)),
    (Numeral.parse_eq_ok (by decide)).2 ⟨sign, digits, rfl, hsign, hdigits, hn⟩]

theorem names_of_parseAddress (h : parseAddress text = .ok n) : Names text n := by
  obtain ⟨i, hi⟩ := exists_append_dropWhile '#' text.toList
  obtain ⟨j, hj⟩ := exists_append_dropHexMarks (text.toList.dropWhile (· = '#'))
  rw [parseAddress] at h
  split at h
  · next m hm =>
    obtain rfl := Except.ok.inj h
    obtain ⟨sign, digits, hrest, hsign, hdigits, hn⟩ := (Numeral.parse_eq_ok (by decide)).1 hm
    refine ⟨i, j, sign, digits, ?_, hsign, hdigits, hn⟩
    rw [List.append_assoc, List.append_assoc, ← hrest, ← hj, ← hi]
  · cases h

theorem parseAddress_eq_ok : parseAddress text = .ok n ↔ Names text n :=
  ⟨names_of_parseAddress, parseAddress_of_names⟩

/-- The number may as well be read as one of 64 bits first and compared with the end of memory
afterwards. -/
theorem parseAddress_eq_ok_iff_read (text : String) (n : Nat) :
    parseAddress text = .ok n ↔
      Numeral.parse 16 UInt64.size (dropHexMarks (text.toList.dropWhile (· = '#'))) = .ok n ∧
        n < 0x1000 := by
  rw [← Numeral.parse_eq_ok_of_le (by decide) (by decide), parseAddress]
  cases Numeral.parse 16 0x1000 (dropHexMarks (text.toList.dropWhile (· = '#'))) with
  | ok m => simp
  | error fault => simp

theorem names_hexText (h : n < 0x1000) (w : Nat) : Names (Hex.text w n) n :=
  ⟨0, 0, [], Hex.padded w n, by simp, .inl rfl, .padded w n, h⟩

/-- An address is read from a text if and only if the text is built of marks, possibly a sign, and a
hexadecimal number that lies in memory, and then it is that number. Every other text is refused, and
the refusal carries the text as it was given. -/
theorem parseAddress_by_grammar (text : String) :
    (∀ n, parseAddress text = .ok n ↔ Names text n) ∧
      (parseAddress text = .error ⟨text⟩ ↔ ∀ n, ¬ Names text n) := by
  refine ⟨fun n ↦ parseAddress_eq_ok, ?_⟩
  constructor
  · intro h n hn
    rw [parseAddress_of_names hn] at h
    cases h
  · intro h
    cases hread : parseAddress text with
    | ok n => exact absurd (names_of_parseAddress hread) (h n)
    | error e =>
        rw [parseAddress] at hread
        split at hread
        · cases hread
        · exact hread.symm

/-- Marks of both kinds, a sign and zeros come before the number. -/
example : parseAddress "##0x0x+0fFf" = .ok 0xFFF := by decide +kernel

/-- A sign in front of a mark is no sign. -/
example : parseAddress "+0x12" = .error ⟨"+0x12"⟩ := by decide +kernel

end Chip8.Listing
