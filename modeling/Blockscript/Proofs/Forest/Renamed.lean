import Mathlib.Logic.Function.Basic
import Blockscript.Proofs.Forest.Edits

/-!
# Forests with other identifiers

`Forest.rename` gives every block another identifier, and the places and orders that name blocks
with it. If no two blocks are given the same one, edits do not see the difference: `add?_rename` and
`update?_rename`. The nested form is renamed with the forest (`outline_rename`) and is the same
without its identifiers (`anonymous_rename`).
-/

namespace Blockscript

/-- The block under another identifier. -/
def Block.rename (r : BlockId → BlockId) (b : Block) : Block := { b with id := r b.id }

/-- The place by the other identifiers. -/
def Place.rename (r : BlockId → BlockId) : Place → Place
  | .top => .top
  | .under id => .under (r id)

/-- The node by the other identifiers. -/
def Node.rename (r : BlockId → BlockId) (n : Node) : Node :=
  ⟨n.block.rename r, n.place.rename r, n.below.map r⟩

namespace Outline

/-- The outline with other identifiers. -/
def rename (r : BlockId → BlockId) : Outline → Outline
  | .nil => .nil
  | .cons b below next => .cons (b.rename r) (below.rename r) (next.rename r)

/-- Renaming changes identifiers only. -/
theorem anonymous_rename (r : BlockId → BlockId) (o : Outline) :
    (o.rename r).anonymous = o.anonymous := by
  induction o with
  | nil => rfl
  | cons b below next ihBelow ihNext =>
    rw [rename, anonymous, anonymous, ihBelow, ihNext]
    rfl

end Outline

namespace Forest

/-- The forest with other identifiers. -/
def rename (r : BlockId → BlockId) (f : Forest) : Forest :=
  { f with nodes := f.nodes.map (Node.rename r), roots := f.roots.map r }

variable {r : BlockId → BlockId}

theorem size_rename (r : BlockId → BlockId) (f : Forest) : (f.rename r).size = f.size :=
  List.length_map _

section Injective

variable (hr : Function.Injective r) (f : Forest)

include hr

/-! ## Searches -/

theorem node?_rename (id : BlockId) :
    (f.rename r).node? (r id) = (f.node? id).map (Node.rename r) := by
  have hsame : ∀ n : Node, decide ((n.rename r).block.id = r id) = decide (n.block.id = id) :=
    fun n => decide_eq_decide.2 hr.eq_iff
  unfold node? rename
  rw [List.find?_map]
  congr 2
  funext n
  exact hsame n

theorem get?_rename (id : BlockId) :
    (f.rename r).get? (r id) = (f.get? id).map (Block.rename r) := by
  rw [get?, node?_rename hr, Option.map_map, get?, Option.map_map]
  rfl

theorem contains_rename (id : BlockId) : (f.rename r).contains (r id) = f.contains id := by
  rw [contains, node?_rename hr, Option.isSome_map, contains]

theorem order_rename (place : Place) :
    (f.rename r).order (place.rename r) = (f.order place).map r := by
  cases place with
  | top => rfl
  | under id =>
    rw [Place.rename, order, node?_rename hr, order]
    cases f.node? id <;> rfl

theorem admits_rename (tag : BlockTag) (place : Place) :
    (f.rename r).admits tag (place.rename r) = f.admits tag place := by
  cases place with
  | top => rw [Place.rename, admits_top, admits_top, rename]
  | under id =>
    have hloop : (∃ b, (f.rename r).get? (r id) = some b ∧ b.isContainer = true) ↔
        ∃ b, f.get? id = some b ∧ b.isContainer = true := by
      rw [get?_rename hr]
      cases f.get? id <;> simp [Block.rename, Block.isContainer]
    rw [Bool.eq_iff_iff, Place.rename, admits_under_iff, admits_under_iff, hloop]
    rfl

/-! ## Edits -/

theorem mapNode_rename (id : BlockId) {change change' : Node → Node}
    (h : ∀ n, (change n).rename r = change' (n.rename r)) :
    (f.rename r).mapNode (r id) change' = (f.mapNode id change).rename r := by
  have hnodes : ∀ n : Node, (if (n.rename r).block.id = r id then change' (n.rename r)
      else n.rename r) = (if n.block.id = id then change n else n).rename r := by
    intro n
    have hid : (n.rename r).block.id = r id ↔ n.block.id = id := hr.eq_iff
    rw [if_congr hid rfl rfl, ← h]
    split <;> rfl
  unfold mapNode rename
  rw [List.map_map, List.map_map]
  congr 1
  exact List.map_congr_left fun n _ => hnodes n

theorem withOrder_rename (place : Place) (ids : List BlockId) :
    (f.rename r).withOrder (place.rename r) (ids.map r) = (f.withOrder place ids).rename r := by
  cases place with
  | top => rfl
  | under id => exact f.mapNode_rename hr id fun _ => rfl

/-- **Adding** a block under another identifier. -/
theorem add?_rename (place : Place) (b : Block) :
    (f.rename r).add? (place.rename r) (b.rename r) = (f.add? place b).map (rename r) := by
  have horder : (f.rename r).order (place.rename r) ++ [r b.id] =
      (f.order place ++ [b.id]).map r := by
    rw [order_rename hr, List.map_append]
    rfl
  unfold add?
  show (if (f.rename r).contains (r b.id) || !(f.rename r).admits b.tag (place.rename r) then _
    else some _) = _
  rw [contains_rename hr, admits_rename hr]
  split
  · rfl
  · dsimp only [Block.rename]
    rw [horder, withOrder_rename hr]
    rfl

/-- **Replacing** a field of a block under another identifier. -/
theorem update?_rename (id : BlockId) (field : BlockField) (value : FieldValue) :
    (f.rename r).update? (r id) field value = (f.update? id field value).map (rename r) := by
  unfold update?
  rw [node?_rename hr, Option.bind_map, Option.map_bind]
  refine Option.bind_congr fun n _ => ?_
  rw [Function.comp_apply, Function.comp_apply, Option.map_map]
  show (n.block.kind.update? field value).map _ = _
  refine Option.map_congr fun kind _ => ?_
  exact f.mapNode_rename hr id fun _ => rfl

/-! ## The nested form -/

theorem outlineOf_rename (depth : ℕ) (ids : List BlockId) :
    (f.rename r).outlineOf depth (ids.map r) = (f.outlineOf depth ids).rename r := by
  induction depth generalizing ids with
  | zero => rfl
  | succ depth ih =>
    unfold outlineOf
    induction ids with
    | nil => rfl
    | cons id ids ihIds =>
      rw [List.map_cons, List.foldr_cons, List.foldr_cons, ihIds, node?_rename hr]
      rcases f.node? id with _ | n
      · rfl
      · exact congrArg (Outline.cons _ · _) (ih n.below)

/-- **The nested form** of a renamed forest. -/
theorem outline_rename : (f.rename r).outline = f.outline.rename r := by
  rw [outline, size_rename]
  exact f.outlineOf_rename hr f.size f.roots

theorem anonymous_outline_rename : (f.rename r).outline.anonymous = f.outline.anonymous := by
  rw [outline_rename hr, Outline.anonymous_rename]

end Injective

end Forest

end Blockscript
