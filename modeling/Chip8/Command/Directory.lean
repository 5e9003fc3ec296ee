import Chip8.Source

/-!
# A working directory

A directory of plain files, as a command finds it. A path starts here or at the root of the file
system and goes on part by part, where empty parts and `.` stay where they are and `..` goes to the
directory above. Every part is looked up where the parts before it lead, so the first one that
cannot be followed decides what is wrong. Outside the directory no file is found, and none can be
made.
-/

namespace Chip8

inductive Fault where
  | notFound
  | notPermitted
  | notDirectory
  | isDirectory
  | nameTooLong
  | reported (message : String)
  deriving DecidableEq, Repr

def Fault.message : Fault → String
  | .notFound => "No such file or directory (os error 2)"
  | .notPermitted => "Permission denied (os error 13)"
  | .notDirectory => "Not a directory (os error 20)"
  | .isDirectory => "Is a directory (os error 21)"
  | .nameTooLong => "File name too long (os error 36)"
  | .reported message => message

inductive Level where
  | inside
  | outside
  deriving DecidableEq, Repr

structure Path where
  start : Level
  parts : List String
  /-- Whether a slash follows the last part, which then has to be a directory. -/
  trailing : Bool
  deriving DecidableEq, Repr

/-- The stretches of a text between its slashes, where `part` was read of the first one already. -/
def Path.stretches (part : List Char) : List Char → List (List Char)
  | [] => [part]
  | c :: cs => if c = '/' then part :: stretches [] cs else stretches (part ++ [c]) cs

def Path.ofText (text : String) : Except Fault Path :=
  let cs := text.toList
  if cs = [] then .error .notFound
  else if 4096 ≤ text.utf8ByteSize then .error .nameTooLong
  else
    .ok {
      start := if cs.head? = some '/' then .outside else .inside
      parts := ((Path.stretches [] cs).filter (· ≠ [])).map String.ofList
      trailing := cs.getLast? = some '/' }

structure Directory where
  files : List (String × List UInt8)
  deriving DecidableEq, Repr

namespace Directory

def empty : Directory :=
  ⟨[]⟩

def content? (d : Directory) (name : String) : Option (List UInt8) :=
  d.files.lookup name

def put (d : Directory) (name : String) (content : List UInt8) : Directory :=
  ⟨(name, content) :: d.files.filter (·.1 ≠ name)⟩

def find (d : Directory) (level : Level) (name : String) : Except Fault (Option (List UInt8)) :=
  if 255 < name.utf8ByteSize then .error .nameTooLong
  else
    match level with
    | .inside => .ok (d.content? name)
    | .outside => .ok none

inductive End where
  | directory
  | name (level : Level) (name : String)
  deriving DecidableEq, Repr

/-- Goes along the parts of a path and stops at a last part that is a name. -/
def walk (d : Directory) (level : Level) : List String → Except Fault End
  | [] => .ok .directory
  | part :: parts =>
    if part = "." then d.walk level parts
    else if part = ".." then d.walk .outside parts
    else if parts = [] then .ok (.name level part)
    else
      match d.find level part with
      | .ok none => .error .notFound
      | .ok (some _) => .error .notDirectory
      | .error fault => .error fault

/-- Opens a path for reading. A directory opens, but cannot be read. -/
def openRead (d : Directory) (text : String) : Except Fault Source := do
  let path ← Path.ofText text
  match ← d.walk path.start path.parts with
  | .directory => .ok (.fail Fault.isDirectory.message)
  | .name level name =>
    match ← d.find level name with
    | none => .error .notFound
    | some content => if path.trailing then .error .notDirectory else .ok (.ofList content)

/-- Opens a path for writing, and gives the name of the file there. A name with a slash after it is
taken for a directory before it is looked up. -/
def openWrite (d : Directory) (text : String) : Except Fault String := do
  let path ← Path.ofText text
  match ← d.walk path.start path.parts with
  | .directory => .error .isDirectory
  | .name level name =>
    if path.trailing then .error .isDirectory
    else
      let _ ← d.find level name
      match level with
      | .inside => .ok name
      | .outside => .error .notPermitted

end Directory

end Chip8
