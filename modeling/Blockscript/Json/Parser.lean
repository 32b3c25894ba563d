import Blockscript.Json.Value

/-!
# Reading JSON

`Json.parse` reads one value from a text and refuses whatever the grammar does not allow: blanks
other than space, tab and line ends, control characters in strings, numbers with a superfluous zero,
and anything after the value.
-/

namespace Blockscript.Json

/-- A text without the space, tab and line end characters at its start. -/
def skipSpace (s : List Char) : List Char :=
  s.dropWhile fun c => c = ' ' ∨ c = '\t' ∨ c = '\n' ∨ c = '\r'

/-! ## Strings -/

/-- The value of a hexadecimal digit. -/
def hexDigit? (c : Char) : Option Nat :=
  if '0' ≤ c ∧ c ≤ '9' then some (c.toNat - '0'.toNat)
  else if 'a' ≤ c ∧ c ≤ 'f' then some (c.toNat - 'a'.toNat + 10)
  else if 'A' ≤ c ∧ c ≤ 'F' then some (c.toNat - 'A'.toNat + 10)
  else none

/-- The character that a short escape stands for. -/
def escaped? : Char → Option Char
  | '"' => some '"'
  | '\\' => some '\\'
  | '/' => some '/'
  | 'b' => some '\x08'
  | 'f' => some '\x0c'
  | 'n' => some '\n'
  | 'r' => some '\r'
  | 't' => some '\t'
  | _ => none

/-- A character of a string, or a 16 bit unit written as four hexadecimal digits. -/
inductive Piece where
  | char (c : Char)
  | unit (n : Nat)

/-- The pieces of a string up to its closing quote, and what follows it. -/
def readPieces : List Char → Option (List Piece × List Char)
  | '"' :: s => some ([], s)
  | '\\' :: 'u' :: a :: b :: c :: d :: s => do
    let n := 4096 * (← hexDigit? a) + 256 * (← hexDigit? b) + 16 * (← hexDigit? c) + (← hexDigit? d)
    let (pieces, rest) ← readPieces s
    some (.unit n :: pieces, rest)
  | '\\' :: e :: s => do
    let c ← escaped? e
    let (pieces, rest) ← readPieces s
    some (.char c :: pieces, rest)
  | c :: s =>
    if c.toNat < 0x20 ∨ c = '\\' then none
    else do
      let (pieces, rest) ← readPieces s
      some (.char c :: pieces, rest)
  | [] => none

/-- The text of the pieces; units pair up to characters beyond 16 bits. -/
def joinPieces : List Piece → Option (List Char)
  | [] => some []
  | .char c :: ps => (joinPieces ps).map (c :: ·)
  | .unit n :: ps =>
    if n < 0xd800 ∨ 0xe000 ≤ n then (joinPieces ps).map (Char.ofNat n :: ·)
    else
      match ps with
      | .unit m :: ps =>
        if n < 0xdc00 ∧ 0xdc00 ≤ m ∧ m < 0xe000 then
          (joinPieces ps).map (Char.ofNat (0x10000 + 0x400 * (n - 0xd800) + (m - 0xdc00)) :: ·)
        else none
      | _ => none

/-- A string after its opening quote, none if a surrogate in it has no partner; and what follows. -/
def readString (s : List Char) : Option (Option String × List Char) :=
  (readPieces s).map fun (pieces, rest) => ((joinPieces pieces).map String.ofList, rest)

/-! ## Numbers -/

/-- The digits at the start of a text, at least one, and what follows them. -/
def readDigits (s : List Char) : Option (List Char × List Char) :=
  match s.takeWhile Char.isDigit with
  | [] => none
  | ds => some (ds, s.dropWhile Char.isDigit)

/-- The value of digits. -/
def digitsValue (ds : List Char) : Int := Nat.ofDigitChars 10 ds 0

/-- The digits of a fraction, if there is one. -/
def readFraction : List Char → Option (Option (List Char) × List Char)
  | '.' :: s => (readDigits s).map fun (ds, s) => (some ds, s)
  | s => some (none, s)

/-- The exponent, if there is one. -/
def readExponent : List Char → Option (Option Int × List Char)
  | c :: s =>
    if c = 'e' ∨ c = 'E' then
      match s with
      | '-' :: s => (readDigits s).map fun (ds, s) => (some (-digitsValue ds), s)
      | '+' :: s => (readDigits s).map fun (ds, s) => (some (digitsValue ds), s)
      | s => (readDigits s).map fun (ds, s) => (some (digitsValue ds), s)
    else some (none, c :: s)
  | [] => some (none, [])

/-- A number without its sign; `sign` is 1 or -1. -/
def readMagnitude (sign : Int) (s : List Char) : Option (Json × List Char) := do
  let (ds, s) ← readDigits s
  if ds.head? = some '0' ∧ ds.length > 1 then none
  else
    let (fraction, s) ← readFraction s
    let (exponent, s) ← readExponent s
    match fraction, exponent with
    | none, none =>
      if sign < 0 ∧ digitsValue ds = 0 then some (.real 0 0, s)
      else some (.int (sign * digitsValue ds), s)
    | _, _ =>
      let places := fraction.getD []
      some (.real (sign * digitsValue (ds ++ places)) (exponent.getD 0 - places.length), s)

/-- A number. -/
def readNumber : List Char → Option (Json × List Char)
  | '-' :: s => readMagnitude (-1) s
  | s => readMagnitude 1 s

/-! ## Values -/

mutual

/-- A value and what follows it; the first argument bounds the nesting. -/
def readValue : Nat → List Char → Option (Json × List Char)
  | 0, _ => none
  | fuel + 1, s =>
    match skipSpace s with
    | '{' :: s =>
      match skipSpace s with
      | '}' :: s => some (.obj [], s)
      | s => (readMembers fuel s).map fun (members, s) =>
          (members.elim .unpaired .obj, s)
    | '[' :: s =>
      match skipSpace s with
      | ']' :: s => some (.arr [], s)
      | s => (readItems fuel s).map fun (items, s) => (.arr items, s)
    | '"' :: s => (readString s).map fun (text, s) => (text.elim .unpaired .str, s)
    | 'n' :: 'u' :: 'l' :: 'l' :: s => some (.null, s)
    | 't' :: 'r' :: 'u' :: 'e' :: s => some (.bool true, s)
    | 'f' :: 'a' :: 'l' :: 's' :: 'e' :: s => some (.bool false, s)
    | s => readNumber s

/-- The items of an array, at least one, up to its bracket. -/
def readItems : Nat → List Char → Option (List Json × List Char)
  | 0, _ => none
  | fuel + 1, s => do
    let (item, s) ← readValue fuel s
    match skipSpace s with
    | ',' :: s =>
      let (items, s) ← readItems fuel s
      some (item :: items, s)
    | ']' :: s => some ([item], s)
    | _ => none

/-- The members of an object, at least one, up to its brace; none if a key is no text. -/
def readMembers : Nat → List Char → Option (Option (List (String × Json)) × List Char)
  | 0, _ => none
  | fuel + 1, s =>
    match skipSpace s with
    | '"' :: s => do
      let (key, s) ← readString s
      match skipSpace s with
      | ':' :: s =>
        let (value, s) ← readValue fuel s
        let member := key.map fun k => (k, value)
        match skipSpace s with
        | ',' :: s =>
          let (members, s) ← readMembers fuel s
          some (member.bind fun m => members.map (m :: ·), s)
        | '}' :: s => some (member.map ([·]), s)
        | _ => none
      | _ => none
    | _ => none

end

/-- The value that a text writes. -/
def parse (text : String) : Option Json :=
  let s := text.toList
  match readValue (2 * s.length + 2) s with
  | some (j, rest) => if skipSpace rest = [] then some j else none
  | none => none

end Blockscript.Json
