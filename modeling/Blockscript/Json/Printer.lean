import Blockscript.Json.Value
import Blockscript.Text.Decimal

/-!
# Writing JSON

`Json.compact` writes a value without any space, `Json.pretty` with every item and member on a line
of its own, indented by two spaces. Characters of a string stand for themselves but for the quote,
the backslash and the control characters.
-/

namespace Blockscript.Json

open Text

/-- One hexadecimal digit in lower case. -/
def hexChar (n : Nat) : Char := Nat.digitChar (n % 16)

/-- A character inside a string. -/
def charText (c : Char) : List Char :=
  if c = '"' then ['\\', '"']
  else if c = '\\' then ['\\', '\\']
  else if c = '\x08' then ['\\', 'b']
  else if c = '\x0c' then ['\\', 'f']
  else if c = '\n' then ['\\', 'n']
  else if c = '\r' then ['\\', 'r']
  else if c = '\t' then ['\\', 't']
  else if c.toNat < 0x20 then
    ['\\', 'u', '0', '0', hexChar (c.toNat / 16), hexChar c.toNat]
  else [c]

/-- A string in quotes. -/
def stringText (s : String) : List Char := '"' :: s.toList.flatMap charText ++ ['"']

/-- A number with an exponent. -/
def realText (mantissa exponent : Int) : List Char :=
  intDigits mantissa ++ 'e' :: intDigits exponent

mutual

/-- A value without any space. -/
def compactText : Json → List Char
  | .null | .unpaired => "null".toList
  | .bool b => if b then "true".toList else "false".toList
  | .int n => intDigits n
  | .real m e => realText m e
  | .str s => stringText s
  | .arr [] => ['[', ']']
  | .arr (j :: js) => '[' :: compactText j ++ compactItems js
  | .obj [] => ['{', '}']
  | .obj ((k, j) :: js) => '{' :: stringText k ++ ':' :: compactText j ++ compactMembers js

/-- Further items, each after a comma, and the closing bracket. -/
def compactItems : List Json → List Char
  | [] => [']']
  | j :: js => ',' :: compactText j ++ compactItems js

/-- Further members, each after a comma, and the closing brace. -/
def compactMembers : List (String × Json) → List Char
  | [] => ['}']
  | (k, j) :: js => ',' :: stringText k ++ ':' :: compactText j ++ compactMembers js

end

/-- The start of a line, indented by so many levels. -/
def newLine (depth : Nat) : List Char := '\n' :: List.replicate (2 * depth) ' '

mutual

/-- A value whose first line is indented by `depth` levels already. -/
def prettyText (depth : Nat) : Json → List Char
  | .null | .unpaired => "null".toList
  | .bool b => if b then "true".toList else "false".toList
  | .int n => intDigits n
  | .real m e => realText m e
  | .str s => stringText s
  | .arr [] => ['[', ']']
  | .arr (j :: js) =>
    '[' :: newLine (depth + 1) ++ prettyText (depth + 1) j ++ prettyItems depth js
  | .obj [] => ['{', '}']
  | .obj ((k, j) :: js) =>
    '{' :: newLine (depth + 1) ++ stringText k ++ ": ".toList ++ prettyText (depth + 1) j ++
      prettyMembers depth js

/-- Further items, each after a comma, and the closing bracket. -/
def prettyItems (depth : Nat) : List Json → List Char
  | [] => newLine depth ++ [']']
  | j :: js => ',' :: newLine (depth + 1) ++ prettyText (depth + 1) j ++ prettyItems depth js

/-- Further members, each after a comma, and the closing brace. -/
def prettyMembers (depth : Nat) : List (String × Json) → List Char
  | [] => newLine depth ++ ['}']
  | (k, j) :: js =>
    ',' :: newLine (depth + 1) ++ stringText k ++ ": ".toList ++ prettyText (depth + 1) j ++
      prettyMembers depth js

end

/-- The text of a value, without any space. -/
def compact (j : Json) : String := String.ofList (compactText j)

/-- The text of a value, with a line for every item and member. -/
def pretty (j : Json) : String := String.ofList (prettyText 0 j)

end Blockscript.Json
