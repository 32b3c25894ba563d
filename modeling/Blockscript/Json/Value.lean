import Blockscript.Json.Range

/-!
# JSON values

A `Json` value keeps the members of an object in their order, repeated ones too, because records
care. Whole numbers are told apart from numbers with a fraction or an exponent. Text with half of a
surrogate pair in it is no text at all; it stands for itself as `unpaired`, which nothing decodes
but which may stand where values are ignored.
-/

namespace Blockscript

/-- A JSON value. -/
inductive Json where
  | null
  | bool (b : Bool)
  /-- A whole number; minus zero is none. -/
  | int (n : Int)
  /-- The number `mantissa * 10 ^ exponent`, written with a fraction or an exponent. -/
  | real (mantissa exponent : Int)
  | str (s : String)
  | arr (items : List Json)
  | obj (members : List (String × Json))
  /-- A string, or an object with a key, that holds half of a surrogate pair. -/
  | unpaired
  deriving Repr

namespace Json

mutual

/-- Whether a value can be kept for later: its text is text, its numbers are in range and it nests
at most so many levels. -/
def keeps (levels : Nat) : Json → Bool
  | .null | .bool _ | .str _ => true
  | .int n => !overflows n 0
  | .real m e => !overflows m e
  | .arr items => levels != 0 && keepsItems (levels - 1) items
  | .obj members => levels != 0 && keepsMembers (levels - 1) members
  | .unpaired => false

/-- `keeps` for every item of an array. -/
def keepsItems (levels : Nat) : List Json → Bool
  | [] => true
  | j :: js => keeps levels j && keepsItems levels js

/-- `keeps` for every member of an object. -/
def keepsMembers (levels : Nat) : List (String × Json) → Bool
  | [] => true
  | (_, j) :: js => keeps levels j && keepsMembers levels js

end

end Json

end Blockscript
