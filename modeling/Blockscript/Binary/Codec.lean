/-!
# Binary codecs

A `Codec` writes values as bytes and reads them off the front of a byte list, leaving the bytes that
follow. Numbers take one byte up to 250; larger ones are a marker byte and two, four or eight bytes,
the lowest first. Strings and lists start with their length, optional values with 0 or 1, and
variants with their index.
-/

namespace Blockscript.Binary

/-- The bytes that values are saved as. -/
abbrev Bytes := List UInt8

/-- Writes values as bytes and reads them back. -/
structure Codec (α : Type) where
  write : α → Bytes
  read : Bytes → Option (α × Bytes)

namespace Codec

variable {α β : Type}

/-! ## Numbers -/

/-- A number in so many bytes, the lowest first. -/
def writeLittle : Nat → Nat → Bytes
  | 0, _ => []
  | count + 1, n => UInt8.ofNat n :: writeLittle count (n / 256)

/-- The number in so many bytes, the lowest first. -/
def readLittle : Nat → Bytes → Option (Nat × Bytes)
  | 0, bytes => some (0, bytes)
  | _ + 1, [] => none
  | count + 1, b :: bytes => (readLittle count bytes).map fun (n, rest) => (b.toNat + 256 * n, rest)

/-- A number with its marker. -/
def writeNumber (n : Nat) : Bytes :=
  if n < 251 then [UInt8.ofNat n]
  else if n < 65536 then 251 :: writeLittle 2 n
  else if n < 4294967296 then 252 :: writeLittle 4 n
  else 253 :: writeLittle 8 n

/-- A number with its marker, of at most so many bytes. Longer forms than needed are read too. -/
def readNumber (width : Nat) : Bytes → Option (Nat × Bytes)
  | [] => none
  | b :: bytes =>
    if b.toNat < 251 then some (b.toNat, bytes)
    else if b = 251 ∧ 2 ≤ width then readLittle 2 bytes
    else if b = 252 ∧ 4 ≤ width then readLittle 4 bytes
    else if b = 253 ∧ 8 ≤ width then readLittle 8 bytes
    else none

/-- A number of 64 bits. -/
def number : Codec Nat := ⟨writeNumber, readNumber 8⟩

/-- The index of a variant, a number of 32 bits. -/
def index : Codec Nat := ⟨writeNumber, readNumber 4⟩

/-! ## Shapes -/

/-- A codec for values that stand for those of another. -/
def via (c : Codec α) (encode : β → α) (decode : α → Option β) : Codec β where
  write b := c.write (encode b)
  read bytes := (c.read bytes).bind fun (a, rest) => (decode a).map fun b => (b, rest)

/-- One value after another. -/
def pair (c : Codec α) (d : Codec β) : Codec (α × β) where
  write ab := c.write ab.1 ++ d.write ab.2
  read bytes := (c.read bytes).bind fun (a, rest) =>
    (d.read rest).map fun (b, rest) => ((a, b), rest)

/-- So many values, one after another. -/
def readMany (c : Codec α) : Nat → Bytes → Option (List α × Bytes)
  | 0, bytes => some ([], bytes)
  | count + 1, bytes =>
    (c.read bytes).bind fun (a, rest) =>
      (c.readMany count rest).map fun (as, rest) => (a :: as, rest)

/-- A list, after its length. -/
def list (c : Codec α) : Codec (List α) where
  write as := number.write as.length ++ as.flatMap c.write
  read bytes := (number.read bytes).bind fun (count, rest) => c.readMany count rest

/-- One byte that is 0 or 1. -/
def bool : Codec Bool where
  write b := if b then [1] else [0]
  read
    | 0 :: rest => some (false, rest)
    | 1 :: rest => some (true, rest)
    | _ => none

/-- A value that may be missing. -/
def option (c : Codec α) : Codec (Option α) where
  write
    | none => [0]
    | some a => 1 :: c.write a
  read
    | 0 :: rest => some (none, rest)
    | 1 :: rest => (c.read rest).map fun (a, rest) => (some a, rest)
    | _ => none

/-- An integer of 64 bits: the even numbers are those from 0 on, the odd ones those below. -/
def word : Codec Int64 :=
  number.via
    (fun w => if w.toInt < 0 then 2 * (-w.toInt).toNat - 1 else 2 * w.toInt.toNat)
    (fun n => some (if n % 2 = 0 then Int64.ofNat (n / 2)
      else Int64.ofInt (-((n / 2 : Nat) : Int) - 1)))

/-- A text, after the length of its UTF-8 form. -/
def string : Codec String where
  write s := number.write s.utf8ByteSize ++ s.toUTF8.toList
  read bytes := (number.read bytes).bind fun (count, rest) =>
    let text := rest.take count
    if text.length = count then
      (String.fromUTF8? ⟨text.toArray⟩).map fun s => (s, rest.drop count)
    else none

/-- A value of a fixed choice, by its index. -/
def choice (indexOf : α → Nat) (ofIndex? : Nat → Option α) : Codec α := index.via indexOf ofIndex?

end Codec

end Blockscript.Binary
