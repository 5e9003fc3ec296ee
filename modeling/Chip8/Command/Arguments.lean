/-!
# Arguments of a command

A command line consists of options and operands. An option is an argument that starts with a dash
and does not end there. It is written by its name after two or more dashes, or by its letter after
a single dash, where several letters may share an argument. A text belongs to an option if it is
attached to it, or if it is the next argument and no option itself. Equals signs in front of an
attached text are left out, and a text attached to a name that takes none has no effect.
-/

namespace Chip8

structure OptionSpec where
  name : String
  letter : Char
  takesText : Bool
  repeatable : Bool
  deriving DecidableEq, Repr

inductive UsageError where
  | unknownOption (argument : String)
  | missingText (name : String)
  | repeated (name : String)
  | unexpectedOperand (text : String)
  | missingOperand
  deriving DecidableEq, Repr

def UsageError.message : UsageError → String
  | .unknownOption argument => "unknown option '" ++ argument ++ "'"
  | .missingText name => "option '--" ++ name ++ "' needs a text"
  | .repeated name => "option '--" ++ name ++ "' is given twice"
  | .unexpectedOperand text => "unexpected argument '" ++ text ++ "'"
  | .missingOperand => "a file is missing"

namespace Arguments

inductive Item where
  | given (name : String)
  | text (name text : String)
  | operand (text : String)
  deriving DecidableEq, Repr

/-- The items of an argument. If the last option in it still lacks a text, its name is there too. -/
structure Reading where
  items : List Item
  awaiting : Option String
  deriving DecidableEq, Repr

namespace Reading

def bare (spec : OptionSpec) : Reading :=
  ⟨[.given spec.name], if spec.takesText then some spec.name else none⟩

def attached (spec : OptionSpec) (cs : List Char) : Reading where
  items := [.given spec.name, .text spec.name (String.ofList (cs.dropWhile (· = '=')))]
  awaiting := none

def addFlag (r : Reading) (spec : OptionSpec) : Reading :=
  { r with items := .given spec.name :: r.items }

end Reading

/-- Whether an argument is an option. A single dash is none. -/
def isOption : List Char → Bool
  | '-' :: _ :: _ => true
  | _ => false

/-- Reads the letters of an argument. The letter of an option with a text ends them. -/
def readLetters (specs : List OptionSpec) (argument : String) :
    List Char → Except UsageError Reading
  | [] => .ok ⟨[], none⟩
  | c :: cs =>
    match specs.find? (·.letter = c) with
    | none => .error (.unknownOption argument)
    | some spec =>
      if spec.takesText then
        .ok (if cs = [] then .bare spec else .attached spec cs)
      else (readLetters specs argument cs).map (·.addFlag spec)

def readName (specs : List OptionSpec) (argument : String) (cs : List Char) :
    Except UsageError Reading :=
  let text := cs.dropWhile (· ≠ '=')
  match specs.find? (·.name = String.ofList (cs.takeWhile (· ≠ '='))) with
  | none => .error (.unknownOption argument)
  | some spec =>
    .ok (if spec.takesText && text ≠ [] then .attached spec text else .bare spec)

/-- Reads an argument that is an option. -/
def readOption (specs : List OptionSpec) (argument : String) : Except UsageError Reading :=
  match argument.toList with
  | '-' :: '-' :: cs => readName specs argument (cs.dropWhile (· = '-'))
  | cs => readLetters specs argument (cs.drop 1)

/-- Reads a command line. An argument that is no option is the text of the option that lacks one,
and otherwise an operand. After `--` everything is an operand. -/
def read (specs : List OptionSpec) (awaiting : Option String) :
    List String → Except UsageError (List Item)
  | [] => .ok []
  | argument :: more =>
    if argument = "--" then .ok (more.map .operand)
    else if isOption argument.toList then
      match readOption specs argument with
      | .error e => .error e
      | .ok r => (read specs r.awaiting more).map (r.items ++ ·)
    else
      let item := match awaiting with
        | some name => Item.text name argument
        | none => Item.operand argument
      (read specs none more).map (item :: ·)

end Arguments

structure Arguments where
  items : List Arguments.Item
  deriving DecidableEq, Repr

namespace Arguments

def count (a : Arguments) (name : String) : Nat :=
  a.items.count (.given name)

def has (a : Arguments) (name : String) : Bool :=
  a.items.contains (.given name)

def texts (a : Arguments) (name : String) : List String :=
  a.items.filterMap fun
    | .text n text => if n = name then some text else none
    | _ => none

def text? (a : Arguments) (name : String) : Option String :=
  (a.texts name).head?

def operands (a : Arguments) : List String :=
  a.items.filterMap fun
    | .operand text => some text
    | _ => none

def operand? (a : Arguments) : Except UsageError (Option String) :=
  match a.operands with
  | [] => .ok none
  | [text] => .ok (some text)
  | _ :: text :: _ => .error (.unexpectedOperand text)

/-- What is wrong with the use of an option. One that may be repeated needs a text only once. -/
def misuse? (a : Arguments) (spec : OptionSpec) : Option UsageError :=
  if 1 < a.count spec.name && !spec.repeatable then some (.repeated spec.name)
  else if a.has spec.name && spec.takesText && a.texts spec.name = [] then
    some (.missingText spec.name)
  else none

def parse (specs : List OptionSpec) (arguments : List String) : Except UsageError Arguments :=
  match read specs none arguments with
  | .error e => .error e
  | .ok items =>
    match specs.findSome? (misuse? ⟨items⟩) with
    | some e => .error e
    | none => .ok ⟨items⟩

end Arguments

end Chip8
