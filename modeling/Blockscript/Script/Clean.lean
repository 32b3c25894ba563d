import Blockscript.Script.Arguments

/-!
# Cleaning text for a document

Blocks and headers may hold any text, but a document has to stay readable. `Clean.name` and
`Clean.path` keep the characters that a name or a path may have, `Clean.line` brings text onto one
line, and each falls back on a placeholder if nothing is left. `Clean.args` settles an argument list
as reading it will: cleaned arguments are written out and read back.
-/

namespace Blockscript.Clean

open Text

/-- The text, or a placeholder for the empty one. -/
def orElse (placeholder : String) (s : List Char) : List Char :=
  if s = [] then placeholder.toList else s

/-- The name characters of a text. -/
def name (placeholder text : String) : List Char := orElse placeholder (text.toList.filter isName)

/-- A character of a path. -/
def isPath (c : Char) : Bool := isName c || c == '.' || c == '$' || c == '[' || c == ']'

/-- The path characters of a text. -/
def path (placeholder text : String) : List Char := orElse placeholder (text.toList.filter isPath)

/-- A text on one line. -/
def line (placeholder text : String) : List Char := orElse placeholder (oneLine text.toList)

/-- A name that does not start with a digit. -/
def isIdentifier : List Char → Bool
  | [] => false
  | c :: s => (c.isAlpha || c == '_') && s.all isName

/-- A product, in double quotes unless it is made of identifiers joined by points. -/
def product (text : String) : List Char :=
  match oneLine (text.toList.filter (· ≠ '"')) with
  | [] => "product".toList
  | s => if (split '.' s).all isIdentifier then s else '"' :: s ++ ['"']

/-- The arguments that the written form of the cleaned arguments lists. -/
def args (as : List CallArg) : List CallArg :=
  Arguments.read (Arguments.write (as.map fun a =>
    ⟨String.ofList (name "arg" a.name), String.ofList (line "\"\"" a.value)⟩))

end Blockscript.Clean
