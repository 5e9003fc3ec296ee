import Chip8.Text.Hex
import Mathlib.Algebra.Group.Nat.Defs

/-!
# Reading hexadecimal numbers apart

The digits of a number of fixed width are its remainder, and a number is written with enough of them
for none to get lost, so numbers that are written alike are equal.
-/

namespace Chip8.Hex

theorem digit_inj {m n : Nat} (hm : m < 16) (hn : n < 16) : digit m = digit n ↔ m = n := by
  refine ⟨fun h ↦ ?_, congrArg digit⟩
  have hvalue : digitValue? (digit m) = digitValue? (digit n) := congrArg digitValue? h
  rw [digitValue?_digit hm, digitValue?_digit hn] at hvalue
  exact Option.some.inj hvalue

theorem exists_digit_of_mem_fixed {c : Char} {w n : Nat} (h : c ∈ fixed w n) :
    ∃ d < 16, c = digit d := by
  induction w generalizing n with
  | zero => exact absurd h List.not_mem_nil
  | succ w ih =>
      rw [fixed_succ, List.mem_append, List.mem_singleton] at h
      obtain h | rfl := h
      · exact ih h
      · exact ⟨n % 16, Nat.mod_lt n (by decide), rfl⟩

/-- A number is written in digits alone. -/
theorem notMem_padded {c : Char} (h : digitValue? c = none) {w n : Nat} : c ∉ padded w n := by
  intro hc
  obtain ⟨d, hd, rfl⟩ := exists_digit_of_mem_fixed hc
  rw [digitValue?_digit hd] at h
  cases h

theorem mod_eq_of_fixed_eq {w m n : Nat} (h : fixed w m = fixed w n) :
    m % 16 ^ w = n % 16 ^ w := by
  induction w generalizing m n with
  | zero => simp only [pow_zero, Nat.mod_one]
  | succ w ih =>
      have hlength : (fixed w (m / 16)).length = (fixed w (n / 16)).length := by
        rw [length_fixed, length_fixed]
      obtain ⟨hupper, hlast⟩ := List.append_inj h hlength
      have hdigit : m % 16 = n % 16 := by
        have hm : m % 16 < 16 := Nat.mod_lt m (by decide)
        have hn : n % 16 < 16 := Nat.mod_lt n (by decide)
        exact (digit_inj hm hn).1 (List.singleton_inj.1 hlast)
      have hrest := ih hupper
      rw [pow_succ', Nat.mod_mul, Nat.mod_mul, hrest, hdigit]

theorem lt_pow_width (n : Nat) : n < 16 ^ width n := by
  calc
    n < 2 ^ (n.log2 + 1) := Nat.lt_log2_self
    _ ≤ 2 ^ (4 * width n) := Nat.pow_le_pow_right (by decide) (by rw [width]; omega)
    _ = 16 ^ width n := by rw [Nat.pow_mul]

theorem padded_inj {w m n : Nat} : padded w m = padded w n ↔ m = n := by
  refine ⟨fun h ↦ ?_, congrArg (padded w)⟩
  have hwidth : max w (width m) = max w (width n) := by
    simpa only [length_padded] using congrArg List.length h
  have hfits (k : Nat) (hk : max w (width k) = max w (width m)) : k < 16 ^ max w (width m) := by
    have hle : width k ≤ max w (width m) := hk ▸ Nat.le_max_right w (width k)
    exact Nat.lt_of_lt_of_le (lt_pow_width k) (Nat.pow_le_pow_right (by decide) hle)
  rw [padded, padded, ← hwidth] at h
  have hmod := mod_eq_of_fixed_eq h
  rwa [Nat.mod_eq_of_lt (hfits m rfl), Nat.mod_eq_of_lt (hfits n hwidth.symm)] at hmod

theorem text_inj {w m n : Nat} : text w m = text w n ↔ m = n := by
  rw [← String.toList_inj, toList_text, toList_text, padded_inj]

/-- A number that has room in `w` digits is written with just that many. -/
theorem length_padded_of_lt {w n : Nat} (hw : 0 < w) (h : n < 16 ^ w) :
    (padded w n).length = w := by
  rw [length_padded, Nat.max_eq_left]
  refine Nat.le_of_not_lt fun hlt ↦ ?_
  have hlog : 4 * w ≤ n.log2 := by
    rw [width] at hlt
    omega
  have hn : n ≠ 0 := by
    rintro rfl
    simp at hlog
    omega
  have hle : 2 ^ (4 * w) ≤ n := (Nat.le_log2 hn).1 hlog
  rw [Nat.pow_mul] at hle
  exact absurd h (Nat.not_lt.2 hle)

/-- A number that has no room in `w` digits is written with more. -/
theorem lt_length_padded_of_le {w n : Nat} (h : 16 ^ w ≤ n) : w < (padded w n).length := by
  rw [length_padded]
  refine Nat.lt_of_not_le fun hle ↦ ?_
  have hwidth : width n ≤ w := Nat.le_trans (Nat.le_max_right w (width n)) hle
  have hlt : n < 16 ^ w :=
    Nat.lt_of_lt_of_le (lt_pow_width n) (Nat.pow_le_pow_right (by decide) hwidth)
  exact absurd h (Nat.not_le.2 hlt)

end Chip8.Hex
