/-!
# Decimal numbers

Whole numbers as ASCII digits with an optional minus, and the ones that fit 64 bits.
`natValue_natDigits` and `intValue_intDigits` say that reading gives back what was written.
-/

namespace Blockscript.Text

/-- The decimal digits of a number, without leading zeros. -/
def natDigits (n : Nat) : List Char := Nat.toDigits 10 n

/-- The decimal digits of an integer, after a minus if it is negative. -/
def intDigits (i : Int) : List Char :=
  if i < 0 then '-' :: natDigits i.natAbs else natDigits i.natAbs

/-- The number that ASCII digits write; there must be at least one. -/
def natValue (s : List Char) : Option Nat :=
  if s ≠ [] ∧ s.all Char.isDigit then some (Nat.ofDigitChars 10 s 0) else none

/-- The integer that an optional minus and ASCII digits write. -/
def intValue (s : List Char) : Option Int :=
  match s with
  | '-' :: r => (natValue r).map fun n : Nat => -(n : Int)
  | _ => (natValue s).map Int.ofNat

/-- The 64 bit word of an integer in range. -/
def toWord (i : Int) : Option Int64 :=
  if -9223372036854775808 ≤ i ∧ i < 9223372036854775808 then some (Int64.ofInt i) else none

theorem isDigit_of_mem_natDigits {n : Nat} {c : Char} (h : c ∈ natDigits n) : c.isDigit = true :=
  Nat.isDigit_of_mem_toDigits (by decide) (by decide) h

theorem natValue_natDigits (n : Nat) : natValue (natDigits n) = some n := by
  have h : (natDigits n).all Char.isDigit = true :=
    List.all_eq_true.2 fun _ => isDigit_of_mem_natDigits
  rw [natValue, if_pos ⟨Nat.toDigits_ne_nil, h⟩, natDigits, Nat.ofDigitChars_ten_toDigits]

theorem intValue_intDigits (i : Int) : intValue (intDigits i) = some i := by
  unfold intDigits
  split
  · change (natValue (natDigits i.natAbs)).map (fun n : Nat => -(n : Int)) = some i
    rw [natValue_natDigits, Option.map_some, show -((i.natAbs : Nat) : Int) = i by omega]
  · have hd : intValue (natDigits i.natAbs) = (natValue (natDigits i.natAbs)).map Int.ofNat := by
      unfold intValue
      split
      · rename_i r hr
        have := isDigit_of_mem_natDigits (n := i.natAbs) (c := '-') (by simp [hr])
        exact absurd this (by decide)
      · rfl
    rw [hd, natValue_natDigits, Option.map_some, show Int.ofNat i.natAbs = i by simp; omega]

theorem toWord_toInt (w : Int64) : toWord w.toInt = some w := by
  have lower := w.le_toInt
  have upper := w.toInt_lt
  rw [toWord, if_pos (by omega), Int64.ofInt_toInt]

end Blockscript.Text
