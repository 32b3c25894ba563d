import Blockscript.Text.Blank

/-!
# Scanning steps

The pieces that a line is read with. Each step looks at the front of a text and answers with what
follows, or with `none` if the text does not start that way; `beforeFinal` and `beforeClosing` look
at its end.
-/

namespace Blockscript.Text

/-- What follows `word`, if the text starts with it. -/
def expect : List Char → List Char → Option (List Char)
  | [], s => some s
  | _ :: _, [] => none
  | w :: ws, c :: s => if w = c then expect ws s else none

/-- What follows one blank or more. -/
def expectBlank : List Char → Option (List Char)
  | [] => none
  | c :: s => if isBlank c then some (trimStart s) else none

/-- The longest leading run of characters that satisfy `p`, if not empty, and what follows it. -/
def run (p : Char → Bool) (s : List Char) : Option (List Char × List Char) :=
  match s.takeWhile p with
  | [] => none
  | word => some (word, s.dropWhile p)

/-- The text before the first `c` and the text after it. -/
def cut (c : Char) (s : List Char) : Option (List Char × List Char) :=
  match s.dropWhile (· ≠ c) with
  | [] => none
  | _ :: rest => some (s.takeWhile (· ≠ c), rest)

/-- The text before a final `c`. -/
def beforeFinal (c : Char) (s : List Char) : Option (List Char) :=
  match s.reverse with
  | [] => none
  | d :: r => if d = c then some r.reverse else none

/-- The text before the last `c` and the text after it. -/
def cutLast (c : Char) (s : List Char) : Option (List Char × List Char) :=
  (cut c s.reverse).map fun (after, before) => (before.reverse, after.reverse)

/-- The text without a final semicolon, if it has one. -/
def dropSemicolon (s : List Char) : List Char := (beforeFinal ';' s).getD s

/-- The text before a closing `c` that only blanks and one semicolon may follow. -/
def beforeClosing (c : Char) (s : List Char) : Option (List Char) :=
  beforeFinal c (trimEnd (dropSemicolon s))

theorem expect_append (w s : List Char) : expect w (w ++ s) = some s := by
  induction w with
  | nil => rfl
  | cons c w ih => simp [expect, ih]

/-- Reading a word off the front loses nothing. -/
theorem eq_append_of_expect {w s r : List Char} (h : expect w s = some r) : s = w ++ r := by
  fun_induction expect w s with
  | case1 => simpa using h
  | case2 => simp at h
  | case3 w c s ih => simp [ih h]
  | case4 => simp at h

/-- A run and what follows it make up the text. -/
theorem append_of_run {p : Char → Bool} {s w r : List Char} (h : run p s = some (w, r)) :
    w ++ r = s := by
  unfold run at h
  split at h
  · simp at h
  · simp only [Option.some.injEq, Prod.mk.injEq] at h
    rw [← h.1, ← h.2, List.takeWhile_append_dropWhile]

theorem beforeFinal_append (c : Char) (s : List Char) : beforeFinal c (s ++ [c]) = some s := by
  simp [beforeFinal]

end Blockscript.Text
