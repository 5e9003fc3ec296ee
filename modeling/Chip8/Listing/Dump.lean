import Chip8.Listing.Line

/-!
# Writing a listing

A dump is the lines of a program, each ended by a line break. A sink takes a limited number of
characters: it takes as much of a text as it has room for, and then no more.
-/

namespace Chip8

namespace Listing

def Line.ended (l : Line) : String :=
  l.text ++ "\n"

def dump (program : List UInt8) : String :=
  String.join ((lines program).map Line.ended)

inductive WriteError where
  | sinkFull
  deriving DecidableEq, Repr

namespace WriteError

def message (_ : WriteError) : String :=
  "could not write disassembly"

def causes : WriteError → List String
  | .sinkFull => ["sink full"]

end WriteError

/-- A sink of limited size. All texts that go into it are of one byte a character. -/
structure Sink where
  room : Nat
  text : String
  deriving DecidableEq, Repr

namespace Sink

def ofRoom (room : Nat) : Sink :=
  ⟨room, ""⟩

/-- Takes the part of a text that there is room for. -/
def take (s : Sink) (text : String) : Sink where
  room := s.room - text.length
  text := s.text ++ String.ofList (text.toList.take s.room)

/-- Writes texts one after another, up to the first one that does not fit. -/
def write (s : Sink) : List String → Sink × Except WriteError Unit
  | [] => (s, .ok ())
  | text :: texts =>
    if text.length ≤ s.room then (s.take text).write texts
    else (s.take text, .error .sinkFull)

end Sink

def dumpTo (sink : Sink) (program : List UInt8) : Sink × Except WriteError Unit :=
  sink.write ((lines program).map Line.ended)

end Listing

end Chip8
