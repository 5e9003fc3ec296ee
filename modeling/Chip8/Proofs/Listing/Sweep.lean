import Chip8.Listing.Line

/-!
# The lines of a listing, one by one

A listing is a sweep over the program in steps of two bytes, so the rest of a listing is the listing
of the rest of the program, and line `k` is about the bytes at `2 * k` and `2 * k + 1`.
-/

namespace Chip8.Listing

variable {address k : Nat} {program : List UInt8} {l : Line}

@[simp] theorem length_sweep (address : Nat) (program : List UInt8) :
    (sweep address program).length = (program.length + 1) / 2 := by
  fun_induction sweep address program with
  | case1 => rfl
  | case2 address b => simp
  | case3 address b₁ b₂ bs ih =>
      rw [List.length_cons, ih]
      simp only [List.length_cons]
      omega

/-- The rest of a listing is the listing of the rest. -/
theorem drop_sweep (address k : Nat) (program : List UInt8) :
    (sweep address program).drop k = sweep (address + 2 * k) (program.drop (2 * k)) := by
  induction k generalizing address program with
  | zero => rfl
  | succ k ih =>
      obtain _ | ⟨b₁, _ | ⟨b₂, bs⟩⟩ := program
      · simp [sweep]
      · simp [sweep, Nat.mul_succ]
      · have haddress : address + 2 + 2 * k = address + (2 * k + 2) := by omega
        rw [sweep, List.drop_succ_cons, ih, haddress]
        rfl

/-- What line `k` of a listing is: it stands for two bytes, or for the last one. -/
theorem line_cases (h : (sweep address program)[k]? = some l) :
    (∃ b₁ b₂ rest, program.drop (2 * k) = b₁ :: b₂ :: rest ∧
        l = ⟨address + 2 * k, .word (.ofBytes b₁ b₂)⟩) ∨
      ∃ b, program.drop (2 * k) = [b] ∧ l = ⟨address + 2 * k, .byte b⟩ := by
  rw [← List.head?_drop, drop_sweep] at h
  rcases hrest : program.drop (2 * k) with _ | ⟨b₁, _ | ⟨b₂, rest⟩⟩
  · simp [hrest, sweep] at h
  · rw [hrest, sweep, List.head?_cons, Option.some.injEq] at h
    exact .inr ⟨b₁, rfl, h.symm⟩
  · rw [hrest, sweep, List.head?_cons, Option.some.injEq] at h
    exact .inl ⟨b₁, b₂, rest, rfl, h.symm⟩

theorem address_of_line (h : (sweep address program)[k]? = some l) :
    l.address = address + 2 * k := by
  obtain ⟨b₁, b₂, rest, -, rfl⟩ | ⟨b, -, rfl⟩ := line_cases h
  · rfl
  · rfl

theorem le_address_of_mem_sweep (h : l ∈ sweep address program) : address ≤ l.address := by
  obtain ⟨k, hk⟩ := List.mem_iff_getElem?.1 h
  rw [address_of_line hk]
  exact Nat.le_add_right address (2 * k)

/-- Every line comes before those after it in memory. -/
theorem pairwise_sweep (address : Nat) (program : List UInt8) :
    (sweep address program).Pairwise (·.address < ·.address) := by
  fun_induction sweep address program with
  | case1 => exact .nil
  | case2 address b => exact List.pairwise_singleton _ _
  | case3 address b₁ b₂ bs ih =>
      refine List.pairwise_cons.2 ⟨fun l hl ↦ ?_, ih⟩
      have hle := le_address_of_mem_sweep hl
      exact Nat.lt_of_lt_of_le (Nat.lt_add_of_pos_right (by decide)) hle

theorem size_of_line (h : (sweep address program)[k]? = some l) :
    l.size =
      if k + 1 = (sweep address program).length ∧ program.length % 2 = 1 then 1 else 2 := by
  rw [length_sweep]
  obtain ⟨b₁, b₂, rest, hrest, rfl⟩ | ⟨b, hrest, rfl⟩ := line_cases h
  · have hlength := congrArg List.length hrest
    rw [List.length_drop, List.length_cons, List.length_cons] at hlength
    rw [if_neg (by omega)]
    rfl
  · have hlength := congrArg List.length hrest
    rw [List.length_drop, List.length_singleton] at hlength
    rw [if_pos (by omega)]
    rfl

/-- The word of a line is made of the bytes at its place in the program, with a zero for the byte
that an odd program lacks. -/
theorem toWord_of_line (h : (sweep address program)[k]? = some l) :
    l.content.toWord = .ofBytes (program.getD (2 * k) 0) (program.getD (2 * k + 1) 0) := by
  have hfirst : program.getD (2 * k) 0 = (program.drop (2 * k)).getD 0 0 := by
    simp [List.getD]
  have hsecond : program.getD (2 * k + 1) 0 = (program.drop (2 * k)).getD 1 0 := by
    simp [List.getD]
  rw [hfirst, hsecond]
  obtain ⟨b₁, b₂, rest, hrest, rfl⟩ | ⟨b, hrest, rfl⟩ := line_cases h
  · rw [hrest]
    rfl
  · rw [hrest]
    rfl

theorem take_size_toWord (l : Line) :
    [l.content.toWord.high, l.content.toWord.low].take l.size = l.content.bytes := by
  obtain ⟨address, content⟩ := l
  cases content with
  | word w => rfl
  | byte b => simp [Content.toWord, Line.size, Content.bytes]

end Chip8.Listing
