/-!
# Sources of bytes

A source delivers bytes in pieces of any size, and either ends or fails. An empty piece is the end,
as is usual for readers. What was delivered before a failure is lost.
-/

namespace Chip8

inductive Source where
  | done
  | fail (reason : String)
  | deliver (bytes : List UInt8) (rest : Source)
  deriving DecidableEq, Repr

structure ReadError where
  reason : String
  deriving DecidableEq, Repr

namespace ReadError

def message (_ : ReadError) : String :=
  "could not read program data"

def causes (e : ReadError) : List String :=
  [e.reason]

end ReadError

namespace Source

def ofList (bytes : List UInt8) : Source :=
  .deliver bytes .done

/-- Delivers `size` bytes at a time, and then what `rest` delivers. -/
def inPieces (size : Nat) (bytes : List UInt8) (rest : Source) : Source :=
  match bytes with
  | [] => rest
  | b :: bs =>
    if size = 0 then .deliver [] rest
    else .deliver (b :: bs.take (size - 1)) (inPieces size (bs.drop (size - 1)) rest)
termination_by bytes.length
decreasing_by simp only [List.length_drop, List.length_cons]; omega

/-- Appends what the source delivers to what has been read. -/
def readOnto (read : Array UInt8) : Source → Except ReadError (List UInt8)
  | .done => .ok read.toList
  | .fail reason => .error ⟨reason⟩
  | .deliver [] _ => .ok read.toList
  | .deliver (b :: bs) rest => rest.readOnto (read ++ (b :: bs))

def readAll (s : Source) : Except ReadError (List UInt8) :=
  s.readOnto #[]

end Source

end Chip8
