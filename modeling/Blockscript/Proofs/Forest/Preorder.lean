import Mathlib.Data.Set.Card
import Blockscript.Proofs.Forest.Blocks
import Blockscript.Proofs.Forest.WellFormed

/-!
# Walks in document order

A forest is walked with a stack of the blocks that are still to be visited; its nested form is read
off by recursion. `WalksInOrder` says that both come to the same: the walk is the nested form
written out in document order, it meets every block once, and the depth of a block is the number of
blocks that it stands under. This holds of every forest (`walksInOrder_editAll`).
-/

namespace Blockscript

namespace Outline

/-- How many blocks there are in each entry, the entry itself among them. -/
def counts : Outline → List ℕ
  | .nil => []
  | .cons _ below next => (1 + below.counts.sum) :: next.counts

theorem sum_counts (o : Outline) : o.counts.sum = o.size := by
  induction o with
  | nil => rfl
  | cons b below next ihBelow ihNext => rw [counts, List.sum_cons, ihBelow, ihNext, size]

end Outline

namespace Forest

/-! ## Depths -/

/-- The blocks that a block stands under, at any depth. -/
def ancestors (f : Forest) (id : BlockId) : Set BlockId :=
  {owner | Relation.TransGen f.Owns owner id}

/-- The blocks that all blocks at a place stand under. -/
def above (f : Forest) : Place → Set BlockId
  | .top => ∅
  | .under id => insert id (f.ancestors id)

section Depths

variable {f : Forest} {o : Outline} {place : Place} {id : BlockId}

theorem ancestors_eq_above (h : f.place? id = some place) : f.ancestors id = f.above place := by
  ext owner
  show Relation.TransGen f.Owns owner id ↔ owner ∈ f.above place
  rw [Relation.TransGen.tail'_iff]
  cases place with
  | top =>
    refine iff_of_false ?_ (Set.notMem_empty owner)
    rintro ⟨last, -, howns⟩
    exact Place.noConfusion (Option.some.inj (h.symm.trans howns))
  | under last =>
    -- The last link is the place of the block, so the others lead to its owner or end there.
    have hlast : ∀ owner', f.Owns owner' id ↔ owner' = last := by
      intro owner'
      unfold Owns
      rw [h, Option.some.injEq, Place.under.injEq, eq_comm]
    simp only [hlast, exists_eq_right, above, Set.mem_insert_iff, ancestors, Set.mem_ofPred_eq]
    rw [Relation.reflTransGen_iff_eq_or_transGen, eq_comm]

theorem Represents.encard_above_under (h : f.Represents o) (id : BlockId) :
    (f.above (.under id)).encard = (f.ancestors id).encard + 1 :=
  Set.encard_insert_of_notMem (h.not_transGen_owns_self id)

/-- The walk through an outline counts the blocks that each block stands under. -/
theorem Represents.encard_ancestors (h : f.Represents o) {below : Outline}
    (hholds : f.Holds place below) {depth : ℕ} (hdepth : (f.above place).encard = depth) :
    ∀ e ∈ below.walk depth, (f.ancestors e.2.id).encard = e.1 := by
  induction below generalizing place depth with
  | nil => exact fun e he => absurd he List.not_mem_nil
  | cons b inner next ihInner ihNext =>
    obtain ⟨hb, hinner, hnext⟩ := holds_cons.1 hholds
    have hplace : f.place? b.id = some place := by
      rw [place?, hb]
      rfl
    have hcount : (f.ancestors b.id).encard = depth := by
      rw [ancestors_eq_above hplace, hdepth]
    have hdeeper : (f.above (.under b.id)).encard = (depth + 1 : ℕ) := by
      rw [h.encard_above_under, hcount, Nat.cast_add, Nat.cast_one]
    rw [Outline.walk, List.forall_mem_cons, List.forall_mem_append]
    exact ⟨hcount, ihInner hinner hdeeper, ihNext hnext hdepth⟩

end Depths

/-! ## Walks -/

/-- Whether the walk through a forest is its nested form in document order. -/
structure WalksInOrder (f : Forest) : Prop where
  /-- The nested form is complete: a higher bound on its depth changes nothing. -/
  nested : ∀ depth, f.size ≤ depth → f.outlineOf depth f.roots = f.outline
  /-- So is the walk: its stack runs empty within the bound on the visits. -/
  visited : ∀ fuel, f.size ≤ fuel → f.visit fuel (f.roots.map (0, ·)) = f.outline.walk 0
  walk_eq : f.walk = f.outline.walk 0
  /-- Every block is met, -/
  perm : (f.walk.map (·.2)).Perm (f.nodes.map (·.block))
  /-- and only once. -/
  nodup : (f.walk.map (·.2.id)).Nodup
  depth : ∀ e ∈ f.walk, (f.ancestors e.2.id).encard = e.1
  size_eq_length : f.size = f.walk.length
  length_eq_count : f.walk.length = f.outline.counts.sum
  contains_iff : ∀ id, f.contains id = true ↔ id ∈ f.walk.map (·.2.id)

theorem Represents.walksInOrder {f : Forest} {o : Outline} (h : f.Represents o) :
    f.WalksInOrder := by
  have hids : f.walk.map (·.2.id) = o.ids := by
    rw [h.walk_eq, Outline.map_walk_id]
  have hsearch := h.exhaustive
  constructor
  case nested => exact hsearch.outline
  case visited =>
    intro fuel hfuel
    rw [hsearch.walk fuel hfuel, h.walk_eq, h.outline_eq]
  case walk_eq => rw [h.walk_eq, h.outline_eq]
  case perm => exact hsearch.walk_perm
  case nodup => exact hids ▸ h.nodup
  case depth =>
    rw [h.walk_eq]
    exact h.encard_ancestors h.holds Set.encard_empty
  case size_eq_length => rw [h.walk_eq, Outline.length_walk, h.size_eq]
  case length_eq_count => rw [h.walk_eq, Outline.length_walk, h.outline_eq, Outline.sum_counts]
  case contains_iff =>
    intro id
    rw [hids, h.contains_iff]

/-- **The walk** through any forest, wherever it comes from and whatever the edits, is its nested
form in document order, with the number of blocks that each block stands under. -/
theorem walksInOrder_editAll (origin : Origin) (es : List Edit) :
    (origin.forest.editAll es).WalksInOrder :=
  (origin.built.editAll es).represents.walksInOrder

end Forest

end Blockscript
