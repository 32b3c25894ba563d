import Blockscript.Block.Kind
import Blockscript.Text.Scan
import Blockscript.Text.Lines
import Blockscript.Text.Word

/-!
# Argument lists

The arguments of a call are written `name: value, name: value`. The text is cut at the commas that
stand outside of double quotes and brackets (`pieces`); a piece that does not open with a name and a
colon goes on with the value before it (`gather`), so that values such as `"a, b"` or `max(x, y)`
stay whole. Nothing is refused: text in front of the first name is dropped. `join_pieces` says that
the cutting itself loses nothing.
-/

namespace Blockscript.Arguments

open Text

/-- What a scan of an argument list is inside of. -/
inductive Position where
  /-- In the open, under so many brackets. -/
  | plain (depth : Nat)
  /-- Inside double quotes. -/
  | quoted (depth : Nat)
  /-- Inside double quotes and behind a backslash. -/
  | escaped (depth : Nat)
  deriving DecidableEq, Repr

/-- Where the scan is after one more character. A closing bracket too many is passed over. -/
def Position.next : Position → Char → Position
  | .plain d, c =>
    if c = '"' then .quoted d
    else if c = '(' ∨ c = '[' ∨ c = '{' then .plain (d + 1)
    else if c = ')' ∨ c = ']' ∨ c = '}' then .plain (d - 1)
    else .plain d
  | .quoted d, c => if c = '\\' then .escaped d else if c = '"' then .plain d else .quoted d
  | .escaped d, _ => .quoted d

/-- The pieces between the commas that a scan from `p` meets outside of quotes and brackets. -/
def piecesFrom (p : Position) : List Char → List (List Char)
  | [] => [[]]
  | c :: s =>
    if p = .plain 0 ∧ c = ',' then [] :: piecesFrom p s
    else
      match piecesFrom (p.next c) s with
      | [] => [[c]]
      | piece :: pieces => (c :: piece) :: pieces

/-- The pieces of an argument list. -/
def pieces (s : List Char) : List (List Char) := piecesFrom (.plain 0) s

/-- The name and the value of a piece that opens with a name and a colon. -/
def named? (piece : List Char) : Option (List Char × List Char) :=
  (run isName (trimStart piece)).bind fun (name, rest) =>
    (expect [':'] (trimStart rest)).map fun value => (name, value)

/-- The text in front of the first name, and the arguments with their values as they stand. -/
def gather : List (List Char) → List Char × List (List Char × List Char)
  | [] => ([], [])
  | piece :: rest =>
    let (more, args) := gather rest
    match named? piece with
    | some (name, value) => ([], (name, value ++ more) :: args)
    | none => (',' :: piece ++ more, args)

/-- The text between the braces of a list that is written in braces. -/
def unwrap (s : List Char) : List Char :=
  match (expect ['{'] s).bind (beforeFinal '}') with
  | some inner => trim inner
  | none => s

/-- The arguments that a text lists. -/
def read (text : List Char) : List CallArg :=
  match unwrap (trim text) with
  | [] => []
  | body => (gather (pieces body)).2.map fun (name, value) =>
      ⟨String.ofList name, String.ofList (trim value)⟩

/-- The text that lists the arguments. -/
def write (args : List CallArg) : List Char :=
  join ", ".toList (args.map fun a => a.name.toList ++ ": ".toList ++ a.value.toList)

/-- The text that lists the arguments, as it is offered for editing. -/
def display (args : List CallArg) : String := String.ofList (write args)

theorem piecesFrom_ne_nil (p : Position) (s : List Char) : piecesFrom p s ≠ [] := by
  cases s with
  | nil => simp [piecesFrom]
  | cons c s =>
    unfold piecesFrom
    split
    · simp
    · split <;> simp

theorem join_piecesFrom (p : Position) (s : List Char) : join [','] (piecesFrom p s) = s := by
  induction s generalizing p with
  | nil => rfl
  | cons c s ih =>
    unfold piecesFrom
    split
    · rename_i h
      obtain ⟨piece, rest, hp⟩ := List.exists_cons_of_ne_nil (piecesFrom_ne_nil p s)
      have := ih p
      rw [hp] at this ⊢
      simp [join, this, h.2]
    · obtain ⟨piece, rest, hp⟩ := List.exists_cons_of_ne_nil (piecesFrom_ne_nil (p.next c) s)
      have := ih (p.next c)
      rw [hp] at this ⊢
      cases rest <;> simp_all [join]

/-- Joining the pieces with commas gives the text back. -/
theorem join_pieces (s : List Char) : join [','] (pieces s) = s := join_piecesFrom _ s

end Blockscript.Arguments
