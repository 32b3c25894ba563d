import Blockscript.Json.Value
import Blockscript.Text.Decimal

/-!
# Decoding JSON

A `Decoder` reads a value of some type off a JSON value that may nest so many levels deep. A record
is an object or the array of its values: `memberValues` finds the value of every member, by name or
by place. Unknown members are passed over; a member that is given twice, also once by each of its
names, is refused.
-/

namespace Blockscript.Json

/-- Reads a value off JSON that may nest so many levels deep. -/
abbrev Decoder (α : Type) := Nat → Json → Option α

/-- The levels that a whole text may nest. -/
def maxLevels : Nat := 127

namespace Decoder

/-- A string. -/
def string : Decoder String := fun _ j =>
  match j with
  | .str s => some s
  | _ => none

/-- A truth value. -/
def bool : Decoder Bool := fun _ j =>
  match j with
  | .bool b => some b
  | _ => none

/-- A whole number of 64 bits without a sign. -/
def natural : Decoder Nat := fun _ j =>
  match j with
  | .int n => if 0 ≤ n ∧ n < 18446744073709551616 then some n.toNat else none
  | _ => none

/-- A whole number of 64 bits. -/
def word : Decoder Int64 := fun _ j =>
  match j with
  | .int n => Text.toWord n
  | _ => none

/-- A value, or null for none. -/
def nullable {α : Type} (d : Decoder α) : Decoder (Option α) := fun levels j =>
  match j with
  | .null => some none
  | j => (d levels j).map some

/-- An array. -/
def list {α : Type} (d : Decoder α) : Decoder (List α)
  | levels + 1, .arr items => items.mapM (d levels)
  | _, _ => none

/-- A name of a fixed choice, as a string or as the one key of an object with the value null. -/
def choice {α : Type} (ofName? : String → Option α) : Decoder α
  | _, .str s => ofName? s
  | _ + 1, .obj [(k, .null)] => ofName? k
  | _, _ => none

/-- An object with one key, which says what its value is. -/
def variant {α : Type} (ofName? : String → Option (Decoder α)) : Decoder α
  | levels + 1, .obj [(k, j)] => (ofName? k).bind fun d => d levels j
  | _, _ => none

end Decoder

/-- A member of a record: its name, a second name if it has one, and whether a record that is
written as an array may end before it. -/
structure Member where
  name : String
  second : Option String := none
  optional : Bool := false

/-- Whether a key names the member. -/
def Member.isNamed (m : Member) (key : String) : Bool := key == m.name || some key == m.second

/-- The value of a member of an object, if there is one; more than one is refused. -/
def Member.find? (m : Member) (members : List (String × Json)) : Option (Option Json) :=
  match members.filter fun kv => m.isNamed kv.1 with
  | [] => some none
  | [kv] => some (some kv.2)
  | _ => none

/-- The values of a record that is written as an array. -/
def listedValues : List Member → List Json → Option (List (Option Json))
  | [], [] => some []
  | [], _ :: _ => none
  | m :: ms, [] => if m.optional then (listedValues ms []).map (none :: ·) else none
  | _ :: ms, j :: js => (listedValues ms js).map (some j :: ·)

/-- The values of the members of a record, none for those that are missing. -/
def memberValues (ms : List Member) : Json → Option (List (Option Json))
  | .obj members => ms.mapM (·.find? members)
  | .arr items => listedValues ms items
  | _ => none

namespace Decoder

/-- A record with the given members, built from their values. -/
def record {α : Type} (ms : List Member) (build : Nat → List (Option Json) → Option α) : Decoder α
  | 0, _ => none
  | levels + 1, j => (memberValues ms j).bind (build levels)

/-- The value of a member that may not be missing. -/
def required {α : Type} (d : Decoder α) (levels : Nat) (j : Option Json) : Option α :=
  j.bind (d levels)

/-- The value of a member, or what stands for it when it is missing. -/
def orElse {α : Type} (d : Decoder α) (missing : α) (levels : Nat) : Option Json → Option α
  | none => some missing
  | some j => d levels j

end Decoder

/-- A string, or null for none. -/
def ofOption {α : Type} (encode : α → Json) : Option α → Json
  | none => .null
  | some a => encode a

/-- A whole number. -/
def ofNat (n : Nat) : Json := .int n

end Blockscript.Json
