/-!
# Records and terms in diagnostic texts

A record is written as a name and its fields in braces, a term as a name and its arguments in
parentheses, and a list in square brackets.
-/

namespace Chip8.Diagnostic

def record (name : String) (fields : List (String × String)) : String :=
  name ++ " \x7b " ++ ", ".intercalate (fields.map fun f ↦ f.1 ++ ": " ++ f.2) ++ " \x7d"

/-- A term. Without arguments it is the name alone. -/
def term (name : String) : List String → String
  | [] => name
  | args => name ++ "(" ++ ", ".intercalate args ++ ")"

def list (items : List String) : String :=
  "[" ++ ", ".intercalate items ++ "]"

def optional : Option String → String
  | none => "None"
  | some text => term "Some" [text]

def bool (b : Bool) : String :=
  if b then "true" else "false"

end Chip8.Diagnostic
