import Blockscript.Proofs.Forest.Enclosing
import Blockscript.Proofs.Script.Parsed

/-!
# Well-formed forests

A forest keeps where a block stands twice, in the place of the block and in the order of the blocks
at that place. `WellFormed` says that the two agree, that every block is listed once and under a
root, and that the blocks fit the role; `Exhaustive` says that the searches of a forest end because
they run out of blocks and not because of their bounds. Both hold of every forest, wherever it comes
from and whatever the edits (`wellFormed_editAll`).
-/

namespace Blockscript

/-! ## The invariant -/

namespace Forest

/-- Whether the places and the orders of a forest fit together and its blocks fit its role. -/
structure WellFormed (role : ForestRole) (f : Forest) : Prop where
  role_eq : f.role = role
  /-- No two nodes have one identifier. -/
  distinct : (f.nodes.map (·.block.id)).Nodup
  /-- What is found under an identifier is the node of that block. -/
  node?_iff : ∀ id n, f.node? id = some n ↔ n ∈ f.nodes ∧ n.block.id = id
  /-- The roots and the blocks listed below others are all blocks, each of them once. -/
  listed : (f.roots ++ f.nodes.flatMap (·.below)).Perm (f.nodes.map (·.block.id))
  /-- A block is listed at the place where it stands and at no other. -/
  order_iff : ∀ place id, id ∈ f.order place ↔ f.place? id = some place
  /-- Going down the orders from the roots reaches every block. -/
  reachable : ∀ n ∈ f.nodes, ∃ root ∈ f.roots,
    Relation.ReflTransGen (fun owner id => id ∈ f.order (.under owner)) root n.block.id
  /-- Going up the places never comes back. -/
  acyclic : ∀ id, ¬ Relation.TransGen f.Owns id id
  loops : ∀ n ∈ f.nodes, n.below ≠ [] → n.block.tag = .forEach
  statements : role = .statements → ∀ n ∈ f.nodes, n.block.tag ≠ .precondition
  preconditions : role = .preconditions →
    ∀ n ∈ f.nodes, n.block.tag = .precondition ∧ n.place = .top

/-- Whether the searches of a forest end by themselves: a higher bound changes nothing. -/
structure Exhaustive (f : Forest) : Prop where
  walk : ∀ fuel, f.size ≤ fuel → f.visit fuel (f.roots.map (0, ·)) = f.walk
  /-- The walk visits every block once. -/
  walk_perm : (f.walk.map (·.2)).Perm (f.nodes.map (·.block))
  family : ∀ id fuel, f.size ≤ fuel → (f.visit fuel [(0, id)]).map (·.2.id) = f.family id
  outline : ∀ depth, f.size ≤ depth → f.outlineOf depth f.roots = f.outline

end Forest

/-! ## Represented forests -/

namespace Outline

theorem map_block_nodes (o : Outline) (place : Place) (depth : ℕ) :
    (o.nodes place).map (·.block) = (o.walk depth).map (·.2) := by
  induction o generalizing place depth with
  | nil => rfl
  | cons b below next ihBelow ihNext =>
    rw [nodes, walk, List.map_cons, List.map_cons, List.map_append, List.map_append,
      ihBelow _ (depth + 1), ihNext _ depth]

/-- The first level and the blocks listed below others are all blocks of an outline. -/
theorem perm_tops_append_below (o : Outline) (place : Place) :
    (o.tops ++ (o.nodes place).flatMap (·.below)).Perm o.ids := by
  induction o generalizing place with
  | nil => exact .refl _
  | cons b below next ihBelow ihNext =>
    have hsplit := (ihBelow (.under b.id)).append (ihNext place)
    rw [List.append_assoc] at hsplit
    rw [tops, nodes, ids, List.flatMap_cons, List.flatMap_append, List.cons_append]
    exact (((List.perm_append_comm_assoc _ _ _).trans
      ((List.perm_append_comm_assoc _ _ _).append_left _)).trans hsplit).cons b.id

end Outline

namespace Forest.Represents

variable {f g : Forest} {o o' : Outline}

theorem perm_listed (h : f.Represents o) :
    (f.roots ++ f.nodes.flatMap (·.below)).Perm (f.nodes.map (·.block.id)) := by
  have hbelow := h.nodes.flatMap_right (·.below)
  rw [h.roots]
  exact ((hbelow.append_left _).trans (o.perm_tops_append_below .top)).trans h.perm_ids.symm

theorem tag_of_isContainer {b : Block} (h : b.isContainer = true) : b.tag = .forEach :=
  beq_iff_eq.1 h

/-- Blocks of a role without loops stand at the top. -/
theorem place_eq_top (h : f.Represents o) (hrole : f.role = .preconditions) {n : Node}
    (hn : n ∈ f.nodes) : n.place = .top := by
  rcases hp : n.place with _ | owner
  · rfl
  · exfalso
    -- The owner lists a block, so it is a loop, and the role would have to take loops.
    have hplace : f.place? n.block.id = some (.under owner) := by
      rw [place?, h.node?_of_mem hn, ← hp]
      rfl
    have hlisted := h.mem_order_iff.2 hplace
    rcases hm : f.node? owner with _ | m
    · rw [order, hm] at hlisted
      exact absurd hlisted List.not_mem_nil
    · rw [order, hm] at hlisted
      have hfits := h.fits m (h.node?_eq_some_iff.1 hm).1
      have hloop := hfits.below (List.ne_nil_of_mem hlisted)
      rw [ForestRole.eq_statements_of_takes hfits.takes hloop] at hrole
      cases hrole

/-- **A forest that represents an outline** is well formed. -/
theorem wellFormed (h : f.Represents o) : f.WellFormed f.role where
  role_eq := rfl
  distinct := h.perm_ids.nodup_iff.2 h.nodup
  node?_iff _ _ := h.node?_eq_some_iff
  listed := h.perm_listed
  order_iff _ _ := h.mem_order_iff
  reachable n hn := by
    have hid := h.perm_ids.subset (List.mem_map_of_mem (f := (·.block.id)) hn)
    obtain ⟨root, hroot, hencloses⟩ := h.exists_root hid
    exact ⟨root, hroot,
      Relation.ReflTransGen.mono (fun _ _ howns => h.mem_order_iff.2 howns) _ _ hencloses⟩
  acyclic := h.not_transGen_owns_self
  loops n hn hbelow := tag_of_isContainer ((h.fits n hn).below hbelow)
  statements hrole n hn := by
    have htakes := (h.fits n hn).takes
    rw [hrole] at htakes
    exact bne_iff_ne.1 htakes
  preconditions hrole n hn := by
    have htakes := (h.fits n hn).takes
    rw [hrole] at htakes
    exact ⟨beq_iff_eq.1 htakes, h.place_eq_top hrole hn⟩

/-- **The searches** of a forest that represents an outline end by themselves. -/
theorem exhaustive (h : f.Represents o) : f.Exhaustive where
  walk fuel hf := by
    have hv := visit_tops_append h.holds 0 (h.size_eq ▸ hf) []
    rwa [visit_nil, List.append_nil, List.append_nil, ← h.roots, ← h.walk_eq] at hv
  walk_perm := by
    rw [h.walk_eq, ← o.map_block_nodes .top]
    exact (h.nodes.map _).symm
  family id fuel hf := by
    by_cases hid : id ∈ o.ids
    · obtain ⟨l, hl⟩ := Outline.exists_below? hid
      rw [h.visit_block hl hf, h.family_eq hl]
    · have hnone : f.node? id = none := by
        rw [← h.contains_iff, contains, Bool.not_eq_true] at hid
        exact Option.isNone_iff_eq_none.1 (Option.isSome_eq_false_iff.1 hid)
      have hvisit : ∀ k, f.visit k [(0, id)] = [] := by
        intro k
        cases k with
        | zero => rfl
        | succ k => rw [visit, hnone]; exact visit_nil f k
      rw [family, hvisit, hvisit]
  outline depth hd := by
    rw [h.outline_eq, h.roots]
    exact outlineOf_tops h.holds (h.size_eq ▸ hd)

/-- **The comparison** of two such forests ends by itself. -/
theorem sameBelow_eq (h : f.Represents o) (h' : g.Represents o') {depth : ℕ} (hd : f.size ≤ depth) :
    f.sameBelow g depth f.roots g.roots = f.sameStructure g := by
  rw [Bool.eq_iff_iff, h.sameStructure_iff h', h.roots, h'.roots]
  exact sameBelow_tops h.holds h'.holds (h.size_eq ▸ hd)

end Forest.Represents

/-! ## Edits -/

/-- Where a forest comes from: from nothing, from an outline, or from a text that was read. -/
inductive Origin where
  | empty (role : ForestRole)
  | outline (role : ForestRole) (o : Outline)
  | statements (mode : Mode) (ids : IdSupply) (text : String)
  | preconditions (mode : Mode) (ids : IdSupply) (text : String)
  deriving Repr

namespace Origin

/-- The role of the forest. -/
def role : Origin → ForestRole
  | .empty role => role
  | .outline role _ => role
  | .statements .. => .statements
  | .preconditions .. => .preconditions

/-- The forest as it comes. -/
def forest : Origin → Forest
  | .empty role => .empty role
  | .outline role o => .ofOutline role o
  | .statements mode ids text => (Script.parse mode ids text).1.statements
  | .preconditions mode ids text => (Script.parse mode ids text).1.preconditions

theorem built (origin : Origin) : Forest.Built origin.role origin.forest := by
  cases origin with
  | empty role => exact .empty
  | outline role o => exact .ofOutline o
  | statements mode ids text => exact (Script.built_parse mode ids text).1
  | preconditions mode ids text => exact (Script.built_parse mode ids text).2

end Origin

namespace Forest

/-- The forest after an edit, which may change nothing. -/
def edited (f : Forest) (e : Edit) : Forest := (f.edit? e).getD f

/-- The forest after edits one after the other. -/
def editAll (f : Forest) (es : List Edit) : Forest := es.foldl edited f

theorem Built.edited {role : ForestRole} {f : Forest} (h : Built role f) (e : Edit) :
    Built role (f.edited e) := by
  rw [Forest.edited]
  rcases hg : f.edit? e with _ | g
  · exact h
  · exact h.edit hg

theorem Built.editAll {role : ForestRole} {f : Forest} (h : Built role f) (es : List Edit) :
    Built role (f.editAll es) := by
  induction es generalizing f with
  | nil => exact h
  | cons e es ih => exact ih (h.edited e)

/-- **Any forest** is well formed, whatever it was made from and whatever the edits, and its walk,
families, outline and comparison with any other forest end by themselves. -/
theorem wellFormed_editAll (origin : Origin) (es : List Edit) :
    (origin.forest.editAll es).WellFormed origin.role ∧ (origin.forest.editAll es).Exhaustive ∧
      ∀ (origin' : Origin) (es' : List Edit) (depth : ℕ), (origin.forest.editAll es).size ≤ depth →
        (origin.forest.editAll es).sameBelow (origin'.forest.editAll es') depth
            (origin.forest.editAll es).roots (origin'.forest.editAll es').roots =
          (origin.forest.editAll es).sameStructure (origin'.forest.editAll es') := by
  have hbuilt := origin.built.editAll es
  obtain ⟨o, ho⟩ := hbuilt.exists_represents
  have hwf := ho.wellFormed
  rw [hbuilt.role_eq] at hwf
  refine ⟨hwf, ho.exhaustive, fun origin' es' depth hd => ?_⟩
  obtain ⟨o', ho'⟩ := (origin'.built.editAll es').exists_represents
  exact ho.sameBelow_eq ho' hd

end Forest

end Blockscript
