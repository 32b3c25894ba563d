import Blockscript.Text.Decimal

/-!
# Block identifiers

A block keeps its `BlockId` for as long as it lives. An `IdSupply` hands the identifiers out in
rising order, so that none is given twice; `reservePast` keeps it clear of identifiers that came
from elsewhere.

A session counts its identifiers in 64 bits. Here they are numbers without a bound: the counter is
taken not to overflow, which would take `2 ^ 64` blocks or a snapshot with the last identifier.
-/

namespace Blockscript

/-- The identifier of a block, a number of 64 bits; those that are handed out are taken to fit. -/
structure BlockId where
  val : Nat
  deriving DecidableEq, Repr

/-- The text of an identifier. -/
def BlockId.display (id : BlockId) : String :=
  String.ofList ("blk-".toList ++ Text.natDigits id.val)

/-- A source of fresh identifiers: all from `next` on are unused. The counter of 64 bits is taken
not to overflow. -/
structure IdSupply where
  next : Nat
  deriving DecidableEq, Repr

namespace IdSupply

/-- The supply that has handed out nothing. -/
def initial : IdSupply := ⟨0⟩

/-- The identifier that is handed out next. -/
def fresh (s : IdSupply) : BlockId := ⟨s.next⟩

/-- The supply once `fresh` has been handed out. -/
def advance (s : IdSupply) : IdSupply := ⟨s.next + 1⟩

/-- The supply whose identifiers all come after `id`. -/
def reservePast (s : IdSupply) (id : BlockId) : IdSupply := ⟨max s.next (id.val + 1)⟩

@[simp] theorem next_advance (s : IdSupply) : s.advance.next = s.next + 1 := rfl

theorem val_lt_reservePast (s : IdSupply) (id : BlockId) : id.val < (s.reservePast id).next := by
  simp only [reservePast]; omega

theorem next_le_reservePast (s : IdSupply) (id : BlockId) : s.next ≤ (s.reservePast id).next := by
  simp only [reservePast]; omega

end IdSupply

end Blockscript
