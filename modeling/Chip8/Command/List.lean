import Chip8.Command.Arguments
import Chip8.Command.Files
import Chip8.Command.Outcome
import Chip8.Listing.Selection

/-!
# The listing command

Lists a program that is read from a file or from standard input. Bounds are checked first, then the
program is opened and read, and only then is the output file created. A command that fails leaves
no output.
-/

namespace Chip8

structure ListRequest where
  verbosity : Nat
  first? : Option String
  last? : Option String
  codeOnly : Bool
  plain : Bool
  output? : Option String
  file? : Option String
  deriving DecidableEq, Repr

inductive ListFailure where
  | address (e : Listing.InvalidAddress)
  | openInput (path : String) (fault : Fault)
  | readInput (e : ReadError)
  | createOutput (path : String) (fault : Fault)
  | writeOutput (fault : Fault)
  deriving DecidableEq, Repr

namespace ListFailure

def message : ListFailure → String
  | .address e => e.message
  | .openInput path _ => "could not open input file '" ++ path ++ "'"
  | .readInput e => e.message
  | .createOutput path _ => "could not create output file '" ++ path ++ "'"
  | .writeOutput _ => "could not write listing"

def causes : ListFailure → List String
  | .address _ => []
  | .openInput _ fault => [fault.message]
  | .readInput e => e.causes
  | .createOutput _ fault => [fault.message]
  | .writeOutput fault => [fault.message]

end ListFailure

structure PreparedListing where
  selection : Listing.Selection
  program : List UInt8
  deriving DecidableEq, Repr

namespace PreparedListing

def text (l : PreparedListing) : String :=
  l.selection.text l.program

def summary (l : PreparedListing) : LogLine where
  severity := .info
  message :=
    "listed " ++ toString (l.selection.codeCount l.program) ++ " instructions and " ++
      toString (l.selection.dataCount l.program) ++ " data words from " ++
      toString l.program.length ++ " bytes"

end PreparedListing

namespace ListRequest

def specs : List OptionSpec :=
  [⟨"output", 'o', true, false⟩, ⟨"from", 'f', true, false⟩, ⟨"to", 't', true, false⟩,
    ⟨"code-only", 'c', false, false⟩, ⟨"plain", 'p', false, false⟩, ⟨"verbose", 'v', false, true⟩]

def parse (arguments : List String) : Except UsageError ListRequest := do
  let a ← Arguments.parse specs arguments
  return {
    verbosity := a.count "verbose"
    first? := a.text? "from"
    last? := a.text? "to"
    codeOnly := a.has "code-only"
    plain := a.has "plain"
    output? := a.text? "output"
    file? := ← a.operand? }

def input? (r : ListRequest) : Option String :=
  r.file?.filter (· ≠ "-")

def target? (r : ListRequest) : Option String :=
  r.output?.filter (· ≠ "-")

def bound (fallback : Nat) : Option String → Except ListFailure Nat
  | none => .ok fallback
  | some text =>
    match Listing.parseAddress text with
    | .ok a => .ok a
    | .error e => .error (.address e)

def selection (r : ListRequest) : Except ListFailure Listing.Selection :=
  match bound 0 r.first? with
  | .error e => .error e
  | .ok first =>
    match bound 0xFFF r.last? with
    | .error e => .error e
    | .ok last => .ok ⟨first, last, r.codeOnly, r.plain⟩

variable {m : Type → Type} [Monad m]

/-- Opens the file that is named, or takes what is typed in. -/
def source (files : Files m) (readInput : m Source) (r : ListRequest) :
    ExceptT ListFailure m Source :=
  match r.input? with
  | none => readInput
  | some path => unlessFault (.openInput path) (files.openRead path)

/-- Puts the listing where it is to go. -/
def deliver (files : Files m) (r : ListRequest) (l : PreparedListing) :
    ExceptT ListFailure m Report := do
  match r.target? with
  | none => return ⟨0, l.text, [l.summary]⟩
  | some path =>
    let write ← unlessFault (.createOutput path) (files.create path)
    unlessFault .writeOutput (write l.text)
    return ⟨0, "", [l.summary]⟩

def attempt (files : Files m) (readInput : m Source) (r : ListRequest) :
    ExceptT ListFailure m Report := do
  let selection ← r.selection
  let source ← r.source files readInput
  let program ← source.readAll.mapError ListFailure.readInput
  r.deliver files ⟨selection, program⟩

def perform (files : Files m) (readInput : m Source) (r : ListRequest) : m Report := do
  match ← (r.attempt files readInput).run with
  | .ok report => return report
  | .error e => return .failed e.message e.causes

/-- Performs the request in a directory. -/
def run (r : ListRequest) (stdin : Source) (d : Directory) : Outcome :=
  let (report, after) := (r.perform .inDirectory (pure stdin)).run d
  report.outcome after

end ListRequest

end Chip8
