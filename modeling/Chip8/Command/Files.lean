import Chip8.Command.Directory

/-!
# Files

What a command asks of the place where it runs. A command is written for any such place, so that it
does the same on the files of a system as in a directory.
-/

namespace Chip8

/-- How files are opened and made. -/
structure Files (m : Type → Type) where
  openRead : String → m (Except Fault Source)
  /-- Makes a file, or empties the one that is there, and gives what writes to its end. -/
  create : String → m (Except Fault (String → m (Except Fault Unit)))

def Directory.append (d : Directory) (name : String) (text : String) : Directory :=
  d.put name ((d.content? name).getD [] ++ text.toUTF8.toList)

def Files.inDirectory : Files (StateM Directory) where
  openRead path := do return (← get).openRead path
  create path := do
    match (← get).openWrite path with
    | .error fault => return .error fault
    | .ok name =>
      modify (·.put name [])
      return .ok fun text ↦ do
        modify (·.append name text)
        return .ok ()

/-- Goes on unless there is a fault, which is the cause of a failure of the command. -/
def unlessFault {m : Type → Type} [Monad m] {ε α : Type} (failure : Fault → ε)
    (result : m (Except Fault α)) : ExceptT ε m α :=
  ExceptT.mk do return (← result).mapError failure

end Chip8
