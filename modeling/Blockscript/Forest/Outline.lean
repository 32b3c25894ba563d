import Blockscript.Block.Kind

/-!
# Outlines

An `Outline` is a list of blocks, each with the outline of the blocks nested under it: the nested
form in which a forest is shown and saved. `walk` lists its blocks in document order, each with its
depth, and `size` counts them.
-/

namespace Blockscript

/-- Blocks in order, each with the blocks nested under it. -/
inductive Outline where
  | nil
  /-- A first block, the outline below it, and the entries after it. -/
  | cons (block : Block) (below next : Outline)
  deriving DecidableEq, Repr

namespace Outline

/-- The number of blocks at all depths. -/
def size : Outline → Nat
  | .nil => 0
  | .cons _ below next => 1 + below.size + next.size

/-- The blocks in document order with their depths, the outermost at `depth`. -/
def walk (depth : Nat) : Outline → List (Nat × Block)
  | .nil => []
  | .cons b below next => (depth, b) :: (below.walk (depth + 1) ++ next.walk depth)

/-- The identifiers in document order. -/
def ids : Outline → List BlockId
  | .nil => []
  | .cons b below next => b.id :: (below.ids ++ next.ids)

theorem length_walk (o : Outline) (depth : Nat) : (o.walk depth).length = o.size := by
  induction o generalizing depth with
  | nil => rfl
  | cons b below next ihb ihn => simp [walk, size, ihb, ihn]; omega

theorem map_walk_id (o : Outline) (depth : Nat) : (o.walk depth).map (·.2.id) = o.ids := by
  induction o generalizing depth with
  | nil => rfl
  | cons b below next ihb ihn => simp [walk, ids, ihb, ihn]

end Outline

end Blockscript
