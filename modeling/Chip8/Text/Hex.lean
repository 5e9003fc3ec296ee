/-!
# Upper-case hexadecimal

Numbers are written with at least a given count of digits. `digitValue?` reads a digit of either
case back.
-/

namespace Chip8.Hex

def digit (n : Nat) : Char :=
  if n < 10 then Char.ofNat (48 + n) else Char.ofNat (55 + n)

/-- The last `w` digits of `n`. -/
def fixed : (w n : Nat) → List Char
  | 0, _ => []
  | w + 1, n => fixed w (n / 16) ++ [digit (n % 16)]

def width (n : Nat) : Nat :=
  n.log2 / 4 + 1

/-- All digits of `n`, filled up with zeros to at least `w` digits. -/
def padded (w n : Nat) : List Char :=
  fixed (max w (width n)) n

def text (w n : Nat) : String :=
  String.ofList (padded w n)

def digitValue? (c : Char) : Option Nat :=
  let n := c.toNat
  if 48 ≤ n ∧ n ≤ 57 then some (n - 48)
  else if 65 ≤ n ∧ n ≤ 70 then some (n - 55)
  else if 97 ≤ n ∧ n ≤ 102 then some (n - 87)
  else none

@[simp] theorem fixed_zero (n : Nat) : fixed 0 n = [] := rfl

@[simp] theorem fixed_succ (w n : Nat) :
    fixed (w + 1) n = fixed w (n / 16) ++ [digit (n % 16)] := rfl

@[simp] theorem length_fixed (w n : Nat) : (fixed w n).length = w := by
  induction w generalizing n with
  | zero => rfl
  | succ w ih => simp [ih]

@[simp] theorem length_padded (w n : Nat) : (padded w n).length = max w (width n) :=
  length_fixed _ _

@[simp] theorem toList_text (w n : Nat) : (text w n).toList = padded w n := by
  simp [text]

theorem digitValue?_digit {n : Nat} (h : n < 16) : digitValue? (digit n) = some n := by
  have all : ∀ k : Fin 16, digitValue? (digit k) = some k.val := by decide
  exact all ⟨n, h⟩

end Chip8.Hex
