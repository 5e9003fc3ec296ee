import Chip8.Text.Hex

/-!
# Unsigned numerals

A numeral is an optional plus sign and at least one digit of its base. The value has to stay below
a limit. Characters are read from left to right and the first fault found is the one reported.
-/

namespace Chip8.Numeral

inductive Fault where
  | empty
  | invalidDigit
  | tooLarge
  deriving DecidableEq, Repr

def Fault.message : Fault → String
  | .empty => "cannot parse integer from empty string"
  | .invalidDigit => "invalid digit found in string"
  | .tooLarge => "number too large to fit in target type"

/-- The value of a digit in the given base, which is at most 16. -/
def digit? (base : Nat) (c : Char) : Option Nat :=
  (Hex.digitValue? c).filter (· < base)

/-- Continues the value `acc` with the digits `cs`. -/
def continue? (base limit : Nat) : (acc : Nat) → (cs : List Char) → Except Fault Nat
  | acc, [] => .ok acc
  | acc, c :: cs =>
    match digit? base c with
    | none => .error .invalidDigit
    | some d =>
      if acc * base + d < limit then continue? base limit (acc * base + d) cs
      else .error .tooLarge

/-- The number that a text names, if it is a numeral below `limit`. -/
def parse (base limit : Nat) : List Char → Except Fault Nat
  | [] => .error .empty
  | '+' :: [] => .error .invalidDigit
  | '+' :: c :: cs => continue? base limit 0 (c :: cs)
  | c :: cs => continue? base limit 0 (c :: cs)

end Chip8.Numeral
