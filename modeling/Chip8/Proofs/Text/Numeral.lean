import Chip8.Proofs.Text.Hex
import Chip8.Text.Numeral

/-!
# Which texts are numerals

A numeral is an optional plus sign and at least one digit, with as many zeros in front as one likes.
Reading gives its value if that is below the limit, and nothing else is read.
-/

namespace Chip8

/-- A digit is read in upper and in lower case. -/
theorem Hex.digitValue?_eq_some {c : Char} {d : Nat} :
    digitValue? c = some d ↔ d < 16 ∧ (c = digit d ∨ c = (digit d).toLower) := by
  constructor
  · intro h
    have hsmall : c.toNat < 103 := by
      simp only [digitValue?] at h
      grind
    have all : ∀ n : Fin 103, (digitValue? (Char.ofNat n)).all
        (fun d ↦ d < 16 ∧ (Char.ofNat n = digit d ∨ Char.ofNat n = (digit d).toLower)) := by
      decide +kernel
    have hc := all ⟨c.toNat, hsmall⟩
    rwa [Char.ofNat_toNat, h, Option.all_some, decide_eq_true_eq] at hc
  · rintro ⟨hd, rfl | rfl⟩
    · exact digitValue?_digit hd
    · have all : ∀ k : Fin 16, digitValue? (digit k).toLower = some k.val := by decide
      exact all ⟨d, hd⟩

namespace Numeral

/-- The character is a digit of the base, in upper or lower case, and this is its value. -/
def IsDigit (base : Nat) (c : Char) (d : Nat) : Prop :=
  d < base ∧ (c = Hex.digit d ∨ c = (Hex.digit d).toLower)

/-- The characters are digits, at least one, and this is the value of the number they make up. -/
inductive Digits (base : Nat) : List Char → Nat → Prop where
  | one {c : Char} {d : Nat} (h : IsDigit base c d) : Digits base [c] d
  | concat {cs : List Char} {c : Char} {n d : Nat} (hcs : Digits base cs n)
      (h : IsDigit base c d) : Digits base (cs ++ [c]) (n * base + d)

variable {base limit acc n d : Nat} {c : Char} {cs : List Char}

theorem digit?_eq_some (hbase : base ≤ 16) : digit? base c = some d ↔ IsDigit base c d := by
  rw [digit?, Option.filter_eq_some_iff, Hex.digitValue?_eq_some, decide_eq_true_eq, IsDigit]
  constructor
  · rintro ⟨⟨-, h⟩, hd⟩
    exact ⟨hd, h⟩
  · rintro ⟨hd, h⟩
    exact ⟨⟨Nat.lt_of_lt_of_le hd hbase, h⟩, hd⟩

namespace Digits

theorem ne_nil (h : Digits base cs n) : cs ≠ [] := by
  cases h with
  | one h => exact List.cons_ne_nil _ _
  | concat hcs h => simp

theorem notMem (hbase : base ≤ 16) (hc : Hex.digitValue? c = none) (h : Digits base cs n) :
    c ∉ cs := by
  have hdigit {a : Char} {d : Nat} (ha : IsDigit base a d) : c ≠ a := by
    rintro rfl
    have hvalue := Hex.digitValue?_eq_some.2 ⟨Nat.lt_of_lt_of_le ha.1 hbase, ha.2⟩
    rw [hc] at hvalue
    cases hvalue
  induction h with
  | one ha => simp [hdigit ha]
  | concat hcs ha ih => simp [ih, hdigit ha]

theorem fixed (w n : Nat) : Digits 16 (Hex.fixed (w + 1) n) (n % 16 ^ (w + 1)) := by
  have hdigit (n : Nat) : IsDigit 16 (Hex.digit (n % 16)) (n % 16) :=
    ⟨Nat.mod_lt n (by decide), .inl rfl⟩
  induction w generalizing n with
  | zero => exact .one (hdigit n)
  | succ w ih =>
      have hvalue : n % 16 ^ (w + 2) = n / 16 % 16 ^ (w + 1) * 16 + n % 16 := by
        rw [pow_succ', Nat.mod_mul]
        omega
      rw [Hex.fixed_succ, hvalue]
      exact (ih (n / 16)).concat (hdigit n)

/-- A number in hexadecimal is read as itself. -/
theorem padded (w n : Nat) : Digits 16 (Hex.padded w n) n := by
  obtain ⟨k, hk⟩ : ∃ k, max w (Hex.width n) = k + 1 :=
    Nat.exists_eq_add_one.2 (Nat.lt_of_lt_of_le (Nat.succ_pos _) (Nat.le_max_right _ _))
  have hfits : n < 16 ^ (k + 1) := by
    rw [← hk]
    exact Nat.lt_of_lt_of_le (Hex.lt_pow_width n)
      (Nat.pow_le_pow_right (by decide) (Nat.le_max_right _ _))
  have hfixed := fixed k n
  rwa [Nat.mod_eq_of_lt hfits, ← hk] at hfixed

end Digits

theorem continue?_concat (acc : Nat) (cs : List Char) (c : Char) :
    continue? base limit acc (cs ++ [c]) =
      (continue? base limit acc cs).bind fun n ↦ continue? base limit n [c] := by
  induction cs generalizing acc with
  | nil => rfl
  | cons a cs ih =>
      rw [List.cons_append, continue?, continue?]
      cases digit? base a with
      | none => rfl
      | some d =>
          simp only
          split
          · exact ih _
          · rfl

theorem continue?_singleton (hbase : base ≤ 16) (h : IsDigit base c d)
    (hlimit : acc * base + d < limit) : continue? base limit acc [c] = .ok (acc * base + d) := by
  rw [continue?, (digit?_eq_some hbase).2 h]
  simp only [if_pos hlimit, continue?]

theorem continue?_of_digits (hbase : base ≤ 16) (h : Digits base cs n) (hlimit : n < limit) :
    continue? base limit 0 cs = .ok n := by
  induction h with
  | one h =>
      rw [continue?_singleton hbase h (by omega), Nat.zero_mul, Nat.zero_add]
  | @concat cs c n d hcs h ih =>
      have hn : n < limit := by
        have hpos : 1 ≤ base := Nat.lt_of_le_of_lt (Nat.zero_le d) h.1
        have hle : n * 1 ≤ n * base := Nat.mul_le_mul_left n hpos
        omega
      rw [continue?_concat, ih hn]
      exact continue?_singleton hbase h hlimit

theorem digits_of_continue? (hbase : base ≤ 16) (hread : Digits base cs acc) (hacc : acc < limit)
    {rest : List Char} (h : continue? base limit acc rest = .ok n) :
    Digits base (cs ++ rest) n ∧ n < limit := by
  induction rest generalizing cs acc with
  | nil =>
      rw [continue?, Except.ok.injEq] at h
      rw [List.append_nil, ← h]
      exact ⟨hread, hacc⟩
  | cons c rest ih =>
      rw [continue?] at h
      cases hc : digit? base c with
      | none =>
          rw [hc] at h
          cases h
      | some d =>
          simp only [hc] at h
          split at h
          · next hlimit =>
            rw [List.append_cons]
            exact ih (hread.concat ((digit?_eq_some hbase).1 hc)) hlimit h
          · cases h

theorem continue?_eq_ok (hbase : base ≤ 16) (hcs : cs ≠ []) :
    continue? base limit 0 cs = .ok n ↔ Digits base cs n ∧ n < limit := by
  refine ⟨fun h ↦ ?_, fun h ↦ continue?_of_digits hbase h.1 h.2⟩
  obtain ⟨c, rest, rfl⟩ := List.exists_cons_of_ne_nil hcs
  rw [continue?] at h
  cases hc : digit? base c with
  | none =>
      rw [hc] at h
      cases h
  | some d =>
      simp only [hc, Nat.zero_mul, Nat.zero_add] at h
      split at h
      · next hlimit =>
        exact digits_of_continue? hbase (.one ((digit?_eq_some hbase).1 hc)) hlimit h
      · cases h

/-- What is read is an optional plus sign and digits that stay below the limit. -/
theorem parse_eq_ok (hbase : base ≤ 16) :
    parse base limit cs = .ok n ↔
      ∃ sign digits, cs = sign ++ digits ∧ (sign = [] ∨ sign = ['+']) ∧ Digits base digits n ∧
        n < limit := by
  constructor
  · intro h
    unfold parse at h
    split at h
    · cases h
    · cases h
    · next c cs =>
      exact ⟨['+'], c :: cs, rfl, .inr rfl, (continue?_eq_ok hbase (List.cons_ne_nil c cs)).1 h⟩
    · next c cs _ _ =>
      exact ⟨[], c :: cs, rfl, .inl rfl, (continue?_eq_ok hbase (List.cons_ne_nil c cs)).1 h⟩
  · rintro ⟨sign, digits, rfl, hsign, hdigits, hlimit⟩
    have hread := continue?_of_digits hbase hdigits hlimit
    have hplus : '+' ∉ digits := hdigits.notMem hbase (by decide)
    obtain ⟨c, cs, rfl⟩ := List.exists_cons_of_ne_nil hdigits.ne_nil
    obtain rfl | rfl := hsign
    · have hc : c ≠ '+' := by
        rintro rfl
        exact hplus List.mem_cons_self
      rw [List.nil_append, parse]
      · exact hread
      · exact fun h _ ↦ hc h
      · exact fun _ _ h _ ↦ hc h
    · exact hread

/-- A smaller limit refuses larger numbers and changes nothing else. -/
theorem parse_eq_ok_of_le {limit' : Nat} (hbase : base ≤ 16) (hle : limit ≤ limit') :
    parse base limit cs = .ok n ↔ parse base limit' cs = .ok n ∧ n < limit := by
  rw [parse_eq_ok hbase, parse_eq_ok hbase]
  constructor
  · rintro ⟨sign, digits, hcs, hsign, hdigits, hlt⟩
    exact ⟨⟨sign, digits, hcs, hsign, hdigits, Nat.lt_of_lt_of_le hlt hle⟩, hlt⟩
  · rintro ⟨⟨sign, digits, hcs, hsign, hdigits, -⟩, hlt⟩
    exact ⟨sign, digits, hcs, hsign, hdigits, hlt⟩

end Numeral

end Chip8
