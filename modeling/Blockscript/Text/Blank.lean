/-!
# Blank characters

`isBlank` is the white space property of Unicode: tab to carriage return, space, next line,
no-break space and the spaces and separators further up. `trim` removes blanks from both ends of a
text; `oneLine` also turns its line breaks into spaces, so that what is left fits on one line.
-/

namespace Blockscript.Text

/-- The white space property of Unicode. -/
def isBlank (c : Char) : Bool :=
  let n := c.toNat
  (9 ≤ n && n ≤ 13) || n == 32 || n == 0x85 || n == 0xa0 || n == 0x1680 ||
    (0x2000 ≤ n && n ≤ 0x200a) || n == 0x2028 || n == 0x2029 || n == 0x202f || n == 0x205f ||
    n == 0x3000

/-- A text without its leading blanks. -/
def trimStart (s : List Char) : List Char := s.dropWhile isBlank

/-- A text without its trailing blanks. -/
def trimEnd (s : List Char) : List Char := (s.reverse.dropWhile isBlank).reverse

/-- A text without the blanks at both ends. -/
def trim (s : List Char) : List Char := trimEnd (trimStart s)

/-- Line breaks become spaces, and the blanks at both ends go. -/
def oneLine (s : List Char) : List Char :=
  trim (s.map fun c => if c = '\r' ∨ c = '\n' then ' ' else c)

/-- A trimmed text does not start with a blank. -/
theorem isBlank_of_trimStart_eq_cons {s r : List Char} {c : Char} (h : trimStart s = c :: r) :
    isBlank c = false := by
  have hd := List.head?_dropWhile_not isBlank s
  rw [show s.dropWhile isBlank = c :: r from h] at hd
  simpa using hd

end Blockscript.Text
