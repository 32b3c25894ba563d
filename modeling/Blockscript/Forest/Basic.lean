import Blockscript.Block.Field
import Blockscript.Forest.Outline

/-!
# Forests of blocks

A `Forest` keeps its blocks in one flat list of nodes; a node names the place it stands at and the
order of the blocks below it, and the forest itself the order of its roots. A forest of statements
holds every kind but preconditions and nests them under loops only; a forest of preconditions holds
those alone, and flat.

The four edits answer `none` when they would change nothing: `add?` for a block whose identifier is
taken or whose kind has no business at that place, `update?` for a field the block does not have or
that already has that value, `remove?` for an unknown block, `reorder?` for blocks that are not
siblings. `outline` is the nested form of a forest, `ofOutline` the way back.
-/

namespace Blockscript

/-- Where a block stands: at the top or directly under another block. -/
inductive Place where
  | top
  | under (id : BlockId)
  deriving DecidableEq, Repr

/-- What a forest may hold. -/
inductive ForestRole where
  | statements
  | preconditions
  deriving DecidableEq, Repr

/-- A block of a forest, its place and the order of the blocks below it. -/
structure Node where
  block : Block
  place : Place
  below : List BlockId
  deriving DecidableEq, Repr

/-- An ordered forest of blocks. -/
structure Forest where
  role : ForestRole
  nodes : List Node
  roots : List BlockId
  deriving DecidableEq, Repr

namespace Forest

/-- The forest without blocks. -/
def empty (role : ForestRole) : Forest := ⟨role, [], []⟩

/-- The number of blocks. -/
def size (f : Forest) : Nat := f.nodes.length

/-- The node of a block. -/
def node? (f : Forest) (id : BlockId) : Option Node := f.nodes.find? (·.block.id = id)

/-- The block of that identifier. -/
def get? (f : Forest) (id : BlockId) : Option Block := (f.node? id).map (·.block)

/-- Whether the forest holds the block. -/
def contains (f : Forest) (id : BlockId) : Bool := (f.node? id).isSome

/-- Where a block stands. -/
def place? (f : Forest) (id : BlockId) : Option Place := (f.node? id).map (·.place)

/-- The blocks that stand directly at a place, in order. -/
def order (f : Forest) : Place → List BlockId
  | .top => f.roots
  | .under id => ((f.node? id).map (·.below)).getD []

/-- The forest with its node of that identifier changed. -/
def mapNode (f : Forest) (id : BlockId) (change : Node → Node) : Forest :=
  { f with nodes := f.nodes.map fun n => if n.block.id = id then change n else n }

/-- The forest with another order of the blocks at a place. -/
def withOrder (f : Forest) (place : Place) (ids : List BlockId) : Forest :=
  match place with
  | .top => { f with roots := ids }
  | .under id => f.mapNode id fun n => { n with below := ids }

/-- Whether a kind of block may stand at a place. -/
def admits (f : Forest) (tag : BlockTag) (place : Place) : Bool :=
  match f.role, place with
  | .preconditions, .top => tag == .precondition
  | .preconditions, .under _ => false
  | .statements, .top => tag != .precondition
  | .statements, .under id => tag != .precondition && (f.get? id).any (·.isContainer)

/-! ## Edits -/

/-- A new last block at a place. -/
def add? (f : Forest) (place : Place) (b : Block) : Option Forest :=
  if f.contains b.id || !f.admits b.tag place then none
  else
    let g := f.withOrder place (f.order place ++ [b.id])
    some { g with nodes := ⟨b, place, []⟩ :: g.nodes }

/-- One field of a block replaced. -/
def update? (f : Forest) (id : BlockId) (field : BlockField) (value : FieldValue) : Option Forest :=
  (f.node? id).bind fun n =>
    (n.block.kind.update? field value).map fun kind =>
      f.mapNode id fun n => { n with block := { n.block with kind } }

/-- The blocks that a walk from the given ones visits, with their depths, in document order; the
first argument bounds the number of visits. -/
def visit (f : Forest) : Nat → List (Nat × BlockId) → List (Nat × Block)
  | 0, _ => []
  | _ + 1, [] => []
  | fuel + 1, (depth, id) :: rest =>
    match f.node? id with
    | none => f.visit fuel rest
    | some n => (depth, n.block) :: f.visit fuel (n.below.map (depth + 1, ·) ++ rest)

/-- All blocks in document order, with their depths. -/
def walk (f : Forest) : List (Nat × Block) := f.visit f.size (f.roots.map (0, ·))

/-- A block and all blocks nested under it, in document order. -/
def family (f : Forest) (id : BlockId) : List BlockId :=
  (f.visit f.size [(0, id)]).map (·.2.id)

/-- A block and all blocks nested under it taken out; taking them out one by one comes to the same
(`Built.remove?_eq_sweep`). -/
def remove? (f : Forest) (id : BlockId) : Option Forest :=
  (f.node? id).map fun n =>
    let gone := f.family id
    let g := f.withOrder n.place ((f.order n.place).filter (· ≠ id))
    { g with nodes := g.nodes.filter fun m => m.block.id ∉ gone }

/-- The list with `a` taken out and put in again where `o` was. -/
def moveTo (ids : List BlockId) (a o : BlockId) : List BlockId :=
  (ids.erase a).insertIdx (ids.idxOf o) a

/-- The block `a` moved to the position of its sibling `o`. -/
def reorder? (f : Forest) (a o : BlockId) : Option Forest :=
  match f.place? a, f.place? o with
  | some place, some place' =>
    if a ≠ o ∧ place = place' ∧ a ∈ f.order place ∧ o ∈ f.order place then
      some (f.withOrder place (moveTo (f.order place) a o))
    else none
  | _, _ => none

/-! ## The nested form -/

/-- The outline of the given blocks, `depth` levels deep. -/
def outlineOf (f : Forest) : Nat → List BlockId → Outline
  | 0, _ => .nil
  | depth + 1, ids =>
    ids.foldr (fun id next =>
      match f.node? id with
      | none => next
      | some n => .cons n.block (f.outlineOf depth n.below) next) .nil

/-- The nested form of the forest. -/
def outline (f : Forest) : Outline := f.outlineOf f.size f.roots

/-- The entries of an outline added at a place, one after the other, each with the entries below it;
an entry that is not admitted is left out with all that is below it. -/
def attach (f : Forest) (place : Place) : Outline → Forest
  | .nil => f
  | .cons b below next =>
    match f.add? place b with
    | none => f.attach place next
    | some g => (g.attach (.under b.id) below).attach place next

/-- The forest of an outline, as far as its role admits the entries. -/
def ofOutline (role : ForestRole) (o : Outline) : Forest := (empty role).attach .top o

/-- Whether two lists of blocks, of one forest each, say the same `depth` levels deep. -/
def sameBelow (f g : Forest) : Nat → List BlockId → List BlockId → Bool
  | 0, ids, ids' => ids.isEmpty && ids'.isEmpty
  | depth + 1, ids, ids' =>
    ids.length == ids'.length && (ids.zip ids').all fun (id, id') =>
      match f.node? id, g.node? id' with
      | some n, some n' =>
        n.block.kind == n'.block.kind && f.sameBelow g depth n.below n'.below
      | _, _ => false

/-- Whether two forests are equal up to their identifiers. -/
def sameStructure (f g : Forest) : Bool := f.sameBelow g f.size f.roots g.roots

@[simp] theorem node?_empty (role : ForestRole) (id : BlockId) : (empty role).node? id = none := rfl

theorem id_of_node? {f : Forest} {id : BlockId} {n : Node} (h : f.node? id = some n) :
    n.block.id = id := by
  simpa using List.find?_some h

end Forest

end Blockscript
