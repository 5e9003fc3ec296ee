import Chip8.Listing.Dump
import Chip8.Text.Numeral

/-!
# Parts of a listing

A selection keeps the lines whose address lies between two bounds, and possibly only those that hold
instructions. Addresses are given as hexadecimal numerals with marks in front of them.
-/

namespace Chip8

namespace Listing

structure InvalidAddress where
  text : String
  deriving DecidableEq, Repr

def InvalidAddress.message (e : InvalidAddress) : String :=
  "invalid address '" ++ e.text ++ "' (expected a hex number below 1000)"

/-- Leaves out every `0x` that a text starts with. -/
def dropHexMarks : List Char → List Char
  | '0' :: 'x' :: cs => dropHexMarks cs
  | cs => cs

/-- The address that a text names: any number of `#`, any number of `0x`, and a hexadecimal numeral
below `0x1000`. -/
def parseAddress (text : String) : Except InvalidAddress Nat :=
  match Numeral.parse 16 0x1000 (dropHexMarks (text.toList.dropWhile (· = '#'))) with
  | .ok n => .ok n
  | .error _ => .error ⟨text⟩

structure Selection where
  first : Nat
  last : Nat
  codeOnly : Bool
  plain : Bool
  deriving DecidableEq, Repr

namespace Selection

/-- Everything that lies in memory, with addresses and bytes. -/
def all : Selection :=
  ⟨0, 0xFFF, false, false⟩

def includes (s : Selection) (l : Line) : Bool :=
  s.first ≤ l.address && l.address ≤ s.last && (l.isCode || !s.codeOnly)

def lines (s : Selection) (program : List UInt8) : List Line :=
  (Listing.lines program).filter s.includes

def lineText (s : Selection) (l : Line) : String :=
  (if s.plain then l.content.text else l.text) ++ "\n"

def text (s : Selection) (program : List UInt8) : String :=
  String.join ((s.lines program).map s.lineText)

def codeCount (s : Selection) (program : List UInt8) : Nat :=
  (s.lines program).countP Line.isCode

def dataCount (s : Selection) (program : List UInt8) : Nat :=
  (s.lines program).countP (!·.isCode)

end Selection

end Listing

end Chip8
