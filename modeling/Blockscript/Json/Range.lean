/-!
# Numbers in range

A number in JSON may have any number of digits, but one that is kept for later is kept as a 64 bit
floating point number. It is made from the leading digits, as many as fit a 64 bit word, and a power
of ten: both are rounded, then their product. `overflows` says when the product is beyond the range.
-/

namespace Blockscript.Json

/-- The nearest number with 53 binary digits and zeros after them; of two the even one. -/
def roundBinary (n : Nat) : Nat :=
  let unit := Nat.pow 2 (n.log2 - 52)
  let count := n / unit
  let rest := n % unit
  if unit < 2 * rest ∨ unit = 2 * rest ∧ count % 2 = 1 then (count + 1) * unit else count * unit

/-- The leading digits of a number that fit a 64 bit word, and how many digits follow them. -/
def leadingDigits (n : Nat) : Nat × Nat :=
  let rest := (Nat.toDigits 10 n).length - 20
  let leading := n / Nat.pow 10 rest
  if leading < 18446744073709551616 then (leading, rest) else (leading / 10, rest + 1)

/-- The least number that is rounded beyond the range: half a unit above the greatest one in it. -/
def rangeLimit : Nat := Nat.pow 2 1024 - Nat.pow 2 970

/-- Whether `mantissa * 10 ^ exponent` is beyond the range of a 64 bit floating point number. -/
def overflows (mantissa exponent : Int) : Bool :=
  let (leading, rest) := leadingDigits mantissa.natAbs
  let power := exponent + rest
  if leading = 0 ∨ power < 0 then false
  else if 308 < power then true
  else rangeLimit ≤ roundBinary leading * roundBinary (Nat.pow 10 power.toNat)

/-- Numbers below `10 ^ 19` keep all their digits. -/
theorem leadingDigits_of_lt {n : Nat} (h : n < 10000000000000000000) :
    leadingDigits n = (n, 0) := by
  have hlen : (Nat.toDigits 10 n).length ≤ 19 :=
    (Nat.length_toDigits_le_iff (by decide) (by decide)).2 h
  have hrest : (Nat.toDigits 10 n).length - 20 = 0 := by omega
  simp [leadingDigits, hrest]
  omega

end Blockscript.Json
