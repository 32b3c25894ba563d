/-!
# Separated text

`split` cuts a text at every separator and `join` puts the pieces together again: `join_split`
says that nothing is lost.
-/

namespace Blockscript.Text

/-- The pieces of a text between the separators; one more than there are separators. -/
def split (sep : Char) : List Char → List (List Char)
  | [] => [[]]
  | c :: s =>
    match split sep s with
    | [] => [[]]
    | piece :: pieces => if c = sep then [] :: piece :: pieces else (c :: piece) :: pieces

/-- The pieces one after the other, with `sep` between them. -/
def join (sep : List Char) : List (List Char) → List Char
  | [] => []
  | [piece] => piece
  | piece :: pieces => piece ++ sep ++ join sep pieces

theorem split_ne_nil (sep : Char) (s : List Char) : split sep s ≠ [] := by
  cases s with
  | nil => simp [split]
  | cons c s =>
    unfold split
    split
    · simp
    · split <;> simp

theorem join_split (sep : Char) (s : List Char) : join [sep] (split sep s) = s := by
  induction s with
  | nil => rfl
  | cons c s ih =>
    obtain ⟨piece, pieces, h⟩ := List.exists_cons_of_ne_nil (split_ne_nil sep s)
    rw [h] at ih
    by_cases hc : c = sep
    · simp [split, h, hc, join, ih]
    · cases pieces with
      | nil => simp_all [split, join]
      | cons p ps => simp_all [split, join]

end Blockscript.Text
