import Chip8.Command.List
import Chip8.Command.Play

/-!
# Command line

`list` writes the listing of a program, and `play` runs a program without a window and prints its
screen. What is done and in which order is said by `ListRequest` and `PlayRequest`; here they are
given the files of the system.
-/

namespace Chip8

def systemError? : IO.Error → Option (UInt32 × String)
  | .alreadyExists _ code text | .permissionDenied _ code text | .resourceExhausted _ code text
  | .inappropriateType _ code text | .noSuchThing _ code text | .invalidArgument _ code text
  | .interrupted _ code text | .noFileOrDirectory _ code text | .otherError code text
  | .resourceBusy code text | .resourceVanished code text | .unsupportedOperation code text
  | .hardwareFault code text | .unsatisfiedConstraints code text | .illegalOperation code text
  | .protocolError code text | .timeExpired code text => some (code, text)
  | .unexpectedEof | .userError _ => none

def Fault.ofError (e : IO.Error) : Fault :=
  match systemError? e with
  | some (code, text) => .reported (text ++ " (os error " ++ toString code ++ ")")
  | none => .reported (toString e)

/-- Opens and reads a file. That it cannot be read shows when the source is read. -/
def openFile (path : String) : IO (Except Fault Source) := do
  match ← (IO.FS.Handle.mk path .read).toBaseIO with
  | .error e => return .error (Fault.ofError e)
  | .ok handle =>
    match ← handle.readBinToEnd.toBaseIO with
    | .error e => return .ok (.fail (Fault.ofError e).message)
    | .ok bytes => return .ok (.ofList bytes.toList)

def readInput : IO Source := do
  match ← (← IO.getStdin).readBinToEnd.toBaseIO with
  | .error e => return .fail (Fault.ofError e).message
  | .ok bytes => return .ofList bytes.toList

def Report.print (r : Report) (verbosity : Nat) : IO UInt32 := do
  IO.print r.stdout
  IO.eprint (r.stderr verbosity)
  return r.exitCode

def refuse (e : UsageError) : IO UInt32 := do
  IO.eprintln ("error: " ++ e.message)
  return 1

def writeTo (handle : IO.FS.Handle) (text : String) : IO (Except Fault Unit) := do
  match ← (handle.putStr text).toBaseIO with
  | .error e => return .error (Fault.ofError e)
  | .ok () => return .ok ()

def createFile (path : String) : IO (Except Fault (String → IO (Except Fault Unit))) := do
  match ← (IO.FS.Handle.mk path .write).toBaseIO with
  | .error e => return .error (Fault.ofError e)
  | .ok handle => return .ok (writeTo handle)

def systemFiles : Files IO where
  openRead := openFile
  create := createFile

def randomGenerator : IO XorShift := do
  let bytes := (← IO.getRandomBytes 16).toList
  let word (i : Nat) : UInt32 :=
    ((bytes.drop (4 * i)).take 4).foldl (fun w b ↦ w * 256 + b.toUInt32) 0
  return (XorShift.ofSeed? (word 0, word 1, word 2, word 3)).getD .fixed

/-- Waits for some time, in parts that the system takes, while the workers are on time. -/
def waitFor (milliseconds : Nat) : IO Schedule := do
  let part := 1000000000
  for _ in [0:milliseconds / part] do
    IO.sleep (UInt32.ofNat part)
  IO.sleep (UInt32.ofNat (milliseconds % part))
  return .prompt milliseconds

def ListRequest.main (arguments : List String) : IO UInt32 := do
  match ListRequest.parse arguments with
  | .error e => refuse e
  | .ok r => (← r.perform systemFiles readInput).print r.verbosity

def PlayRequest.main (arguments : List String) : IO UInt32 := do
  match PlayRequest.parse arguments with
  | .error e => refuse e
  | .ok r => (← r.perform systemFiles randomGenerator waitFor).print r.verbosity

end Chip8

def main : List String → IO UInt32
  | "list" :: arguments => Chip8.ListRequest.main arguments
  | "play" :: arguments => Chip8.PlayRequest.main arguments
  | _ => do
    IO.eprintln "usage: chip8 list [OPTIONS] [FILE] | chip8 play [OPTIONS] FILE"
    return 1
