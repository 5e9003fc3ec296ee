import Chip8.Proofs.Listing.Full

/-!
# A dump into a sink that fills up

A sink that takes a limited number of bytes keeps the first bytes of a dump and reports a failure if
and only if some are missing. This does not depend on the pieces that the lines are written in, nor
on how often a piece that was taken in part is offered again.
-/

namespace Chip8

/-! ### Texts of one byte a character -/

namespace Text

variable {cs : List Char}

theorem bytes_ofList (h : ∀ c ∈ cs, c.utf8Size = 1) :
    (String.ofList cs).toUTF8.data.toList = cs.map fun c ↦ c.val.toUInt8 := by
  rw [String.toUTF8_eq_toByteArray, String.toByteArray_ofList, List.utf8Encode,
    List.toList_data_toByteArray]
  induction cs with
  | nil => rfl
  | cons c cs ih =>
      rw [List.forall_mem_cons] at h
      rw [List.flatMap_cons, String.utf8EncodeChar_eq_singleton h.1, ih h.2]
      rfl

theorem bytes_ofList_take (h : ∀ c ∈ cs, c.utf8Size = 1) (n : Nat) :
    (String.ofList (cs.take n)).toUTF8.data.toList =
      (String.ofList cs).toUTF8.data.toList.take n := by
  rw [bytes_ofList fun c hc ↦ h c (List.mem_of_mem_take hc), bytes_ofList h, List.map_take]

theorem utf8ByteSize_ofList (h : ∀ c ∈ cs, c.utf8Size = 1) :
    (String.ofList cs).utf8ByteSize = cs.length := by
  have hbytes := congrArg List.length (bytes_ofList h)
  rwa [List.length_map] at hbytes

end Text

theorem Operand.utf8Size_of_isOperandChar {c : Char} (h : isOperandChar c = true) :
    c.utf8Size = 1 := by
  have hletters : Mnemonic.letters.all (·.utf8Size = 1) = true := by decide
  simp only [isOperandChar, Bool.or_eq_true, decide_eq_true_eq, or_assoc] at h
  obtain hdigit | hmem | rfl | rfl | rfl := h
  · have hnine : c.toNat ≤ '9'.toNat := (Char.isDigit_iff_toNat.1 hdigit).2
    exact Char.utf8Size_eq_one_iff.2 (UInt32.le_iff_toNat_le.2 (Nat.le_trans hnine (by decide)))
  · exact of_decide_eq_true (List.all_eq_true.1 hletters c hmem)
  all_goals rfl

namespace Listing

variable {c : Char} {program : List UInt8}

theorem notMem_dump (hc : Operand.isOperandChar c = false) (hspace : c ≠ ' ') (hcomma : c ≠ ',')
    (hnewline : c ≠ '\n') (program : List UInt8) : c ∉ (dump program).toList := by
  rw [dump, String.toList_join, List.mem_flatMap]
  rintro ⟨text, htext, hmem⟩
  obtain ⟨l, -, rfl⟩ := List.mem_map.1 htext
  rw [l.toList_ended, List.mem_append, List.mem_singleton] at hmem
  obtain hmem | rfl := hmem
  · exact l.notMem_text hc hspace hcomma hmem
  · exact hnewline rfl

theorem utf8Size_of_mem_dump (h : c ∈ (dump program).toList) : c.utf8Size = 1 := by
  by_contra hsize
  refine notMem_dump ?_ ?_ ?_ ?_ program h
  · rw [← Bool.not_eq_true]
    exact fun hc ↦ hsize (Operand.utf8Size_of_isOperandChar hc)
  all_goals
    rintro rfl
    exact hsize rfl

namespace Sink

variable {s : Sink}

/-! ### What a sink holds after a write -/

theorem toList_text_take (s : Sink) (text : String) :
    (s.take text).text.toList = s.text.toList ++ text.toList.take s.room := by
  simp [take]

theorem toList_text_write (s : Sink) (texts : List String) :
    (s.write texts).1.text.toList = s.text.toList ++ (String.join texts).toList.take s.room := by
  induction texts generalizing s with
  | nil => simp [write]
  | cons text texts ih =>
      rw [String.join_cons, String.toList_append, List.take_append, write]
      split
      · rw [ih, toList_text_take, List.append_assoc]
        rfl
      · next hfull =>
        have hnone : s.room - text.toList.length = 0 := by
          rw [String.length_toList]
          omega
        rw [toList_text_take, hnone, List.take_zero, List.append_nil]

/-- The texts fit in if and only if what they join to does. -/
theorem write_snd (s : Sink) (texts : List String) :
    (s.write texts).2 =
      if s.room < (String.join texts).length then .error .sinkFull else .ok () := by
  induction texts generalizing s with
  | nil => simp [write]
  | cons text texts ih =>
      rw [String.join_cons, String.length_append, write]
      split
      · next hfits =>
        have hroom : (s.take text).room = s.room - text.length := rfl
        rw [ih, hroom]
        exact if_congr (by omega) rfl rfl
      · next hfull => rw [if_pos (by omega)]

theorem room_write (s : Sink) (texts : List String) :
    (s.write texts).1.room = s.room - (String.join texts).length := by
  induction texts generalizing s with
  | nil => simp [write]
  | cons text texts ih =>
      rw [String.join_cons, String.length_append, write]
      split
      · rw [ih, take, Nat.sub_sub]
      · simp only [take]
        omega

/-- How a text is cut into pieces does not matter. -/
theorem write_congr {texts' : List String} (h : String.join texts = String.join texts') (s : Sink) :
    s.write texts = s.write texts' := by
  have hsink : (s.write texts).1 = (s.write texts').1 := by
    rw [Sink.mk.injEq, room_write, room_write, ← String.toList_inj, toList_text_write,
      toList_text_write, h]
    exact ⟨rfl, rfl⟩
  exact Prod.ext hsink (by rw [write_snd, write_snd, h])

/-! ### Offering the rest again -/

/-- Offers what is left of a text until nothing is left. A sink takes what it has room for, and
fails as soon as there is none. -/
def offer (s : Sink) (cs : List Char) : Sink × Except WriteError Unit :=
  if cs = [] then (s, .ok ())
  else if s.room = 0 then (s, .error .sinkFull)
  else (s.take (String.ofList cs)).offer (cs.drop s.room)
termination_by cs.length
decreasing_by
  rename_i hcs hroom
  have := List.length_pos_iff.2 hcs
  rw [List.length_drop]
  omega

/-- Offers texts one after another, up to the first one that fails. -/
def offerAll (s : Sink) : List String → Sink × Except WriteError Unit
  | [] => (s, .ok ())
  | text :: texts =>
    match s.offer text.toList with
    | (s', .ok ()) => s'.offerAll texts
    | (s', .error e) => (s', .error e)

@[simp] theorem take_empty (s : Sink) : s.take "" = s := by
  cases s
  simp [take]

theorem take_of_full (h : s.room = 0) (text : String) : s.take text = s := by
  cases s
  simp_all [take]

theorem offer_eq_write (s : Sink) (cs : List Char) : s.offer cs = s.write [String.ofList cs] := by
  rw [offer]
  split
  · next hempty => simp [hempty, write]
  · next hsome =>
    have hpos := List.length_pos_iff.2 hsome
    split
    · next hfull =>
      rw [write, if_neg (by rw [String.length_ofList]; omega), take_of_full hfull]
    · next hroom =>
      -- After this the text is used up, or else the room is.
      rw [offer, write, String.length_ofList]
      by_cases hfits : cs.length ≤ s.room
      · rw [if_pos (List.drop_eq_nil_of_le hfits), if_pos hfits, write]
      · have hleft : cs.drop s.room ≠ [] := by
          rw [← List.length_pos_iff, List.length_drop]
          omega
        have hfull : (s.take (String.ofList cs)).room = 0 := by
          simp only [take, String.length_ofList]
          omega
        rw [if_neg hleft, if_pos hfull, if_neg hfits]

theorem offerAll_eq_write (s : Sink) (texts : List String) : s.offerAll texts = s.write texts := by
  induction texts generalizing s with
  | nil => rfl
  | cons text texts ih =>
      rw [offerAll, offer_eq_write, String.ofList_toList]
      by_cases hfits : text.length ≤ s.room
      · simp only [write, if_pos hfits, ih]
      · simp only [write, if_neg hfits]

end Sink

/-- A sink that takes `n` bytes in all ends up with the first `n` bytes of a dump, and a failure is
reported if and only if the dump has more. The lines may be written in any pieces, each offered until
all of it is taken or the sink fails. -/
theorem dump_cut_to_room (program : List UInt8) (n : Nat) (pieces : List String)
    (hpieces : String.join pieces = dump program) :
    let r := (Sink.ofRoom n).offerAll pieces
    dumpTo (.ofRoom n) program = r ∧
      r.1.text.toUTF8.data.toList = (dump program).toUTF8.data.toList.take n ∧
      (r.2 = .ok () ↔ (dump program).utf8ByteSize ≤ n) ∧
      ((∃ e, r.2 = .error e ∧ e.message = "could not write disassembly") ↔
        n < (dump program).utf8ByteSize) := by
  intro r
  have hr : r = (Sink.ofRoom n).write pieces := Sink.offerAll_eq_write _ _
  have hbytes : ∀ c ∈ (dump program).toList, c.utf8Size = 1 := fun c hc ↦ utf8Size_of_mem_dump hc
  have hsize : (dump program).utf8ByteSize = (dump program).length := by
    rw [← String.length_toList, ← Text.utf8ByteSize_ofList hbytes, String.ofList_toList]
  have htext : r.1.text = String.ofList ((dump program).toList.take n) := by
    rw [← String.toList_inj, hr, Sink.toList_text_write, hpieces, String.toList_ofList]
    rfl
  have hend : r.2 = if n < (dump program).utf8ByteSize then .error .sinkFull else .ok () := by
    rw [hr, Sink.write_snd, hpieces, hsize]
    rfl
  refine ⟨?_, ?_, ?_⟩
  · rw [hr, dumpTo]
    exact Sink.write_congr hpieces.symm _
  · rw [htext, Text.bytes_ofList_take hbytes, String.ofList_toList]
  · rw [hend]
    by_cases hcut : n < (dump program).utf8ByteSize
    · rw [if_pos hcut]
      exact ⟨iff_of_false (by simp) (Nat.not_le.2 hcut), iff_of_true ⟨.sinkFull, rfl, rfl⟩ hcut⟩
    · rw [if_neg hcut]
      exact ⟨iff_of_true rfl (Nat.le_of_not_lt hcut), iff_of_false (by simp) hcut⟩

/-- The room ends before the last line break, and the failure shows. -/
theorem dump_cut_before_line_break :
    let pieces :=
      ["200", "  ", "00", " ", "E0", "  ", "CLS", "\n", "202", "  ", "AB", "     ", "DB #AB", "\n"]
    let r := (Sink.ofRoom 34).offerAll pieces
    String.join pieces = dump [0x00, 0xE0, 0xAB] ∧
      dumpTo (.ofRoom 34) [0x00, 0xE0, 0xAB] = r ∧
      r.1.text.toUTF8.data.toList = (dump [0x00, 0xE0, 0xAB]).toUTF8.data.toList.take 34 ∧
      ∃ e, r.2 = .error e ∧ e.message = "could not write disassembly" := by
  intro pieces r
  have hpieces : String.join pieces = dump [0x00, 0xE0, 0xAB] := by decide +kernel
  obtain ⟨hdump, hbytes, -, herror⟩ := dump_cut_to_room [0x00, 0xE0, 0xAB] 34 pieces hpieces
  exact ⟨hpieces, hdump, hbytes, herror.2 (by decide +kernel)⟩

end Listing

end Chip8
