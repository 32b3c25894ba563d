import Mathlib.Data.List.Nodup
import Blockscript.Forest.Basic

/-!
# Nodes of an outline

The nodes that a forest keeps for an outline are `Outline.nodes`, and `Outline.level?` is the part
of the outline that stands at a place. Every edit of a forest changes one level; `exists_rest`
splits the nodes into those of a level and the rest, in which only the owner of the level is written
anew.
-/

namespace Blockscript

/-- A node, with another order of the blocks below it if those stand at `place`. -/
def Node.relisted (place : Place) (ids : List BlockId) (n : Node) : Node :=
  if place = .under n.block.id then { n with below := ids } else n

namespace Node

variable (place : Place) (ids : List BlockId) (n : Node)

@[simp] theorem block_relisted : (n.relisted place ids).block = n.block := by
  unfold relisted
  split <;> rfl

theorem relisted_of_ne {place : Place} {n : Node} (h : place ≠ .under n.block.id) :
    n.relisted place ids = n := if_neg h

theorem relisted_under_self : n.relisted (.under n.block.id) ids = { n with below := ids } :=
  if_pos rfl

@[simp] theorem relisted_top : n.relisted .top ids = n := relisted_of_ne ids Place.noConfusion

end Node

theorem map_relisted_top (ids : List BlockId) (ns : List Node) :
    ns.map (Node.relisted .top ids) = ns :=
  (List.map_congr_left fun n _ => n.relisted_top ids).trans (List.map_id ns)

namespace Outline

/-- The blocks of the first level. -/
def tops : Outline → List BlockId
  | .nil => []
  | .cons b _ next => b.id :: next.tops

/-- The nodes of an outline whose first level stands at `place`, in document order. -/
def nodes (place : Place) : Outline → List Node
  | .nil => []
  | .cons b below next =>
    ⟨b, place, below.tops⟩ :: (below.nodes (.under b.id) ++ next.nodes place)

/-- One outline after another. -/
def append : Outline → Outline → Outline
  | .nil, o => o
  | .cons b below next, o => .cons b below (next.append o)

/-- The outline of one block that has none below it. -/
def leaf (b : Block) : Outline := .cons b .nil .nil

@[simp] theorem map_id_nodes (o : Outline) (place : Place) :
    (o.nodes place).map (·.block.id) = o.ids := by
  induction o generalizing place with
  | nil => rfl
  | cons b below next ihBelow ihNext => simp [nodes, ids, ihBelow, ihNext]

theorem map_relisted_nodes {id : BlockId} {o : Outline} (h : id ∉ o.ids) (ids : List BlockId)
    (place : Place) : (o.nodes place).map (Node.relisted (.under id) ids) = o.nodes place := by
  refine (List.map_congr_left fun n hn => Node.relisted_of_ne ids fun he => h ?_).trans
    (List.map_id _)
  rw [Place.under.inj he, ← map_id_nodes o place]
  exact List.mem_map_of_mem hn

@[simp] theorem length_nodes (o : Outline) (place : Place) : (o.nodes place).length = o.size := by
  rw [← length_walk o 0, ← List.length_map (fun n : Node => n.block.id), map_id_nodes,
    ← map_walk_id o 0, List.length_map]

theorem tops_sublist_ids (o : Outline) : o.tops.Sublist o.ids := by
  induction o with
  | nil => exact .slnil
  | cons b below next _ ihNext =>
    exact (ihNext.trans (List.sublist_append_right below.ids next.ids)).cons_cons b.id

theorem tops_append (o o' : Outline) : (o.append o').tops = o.tops ++ o'.tops := by
  induction o with
  | nil => rfl
  | cons b below next _ ihNext => rw [append, tops, tops, ihNext, List.cons_append]

theorem nodes_append (o o' : Outline) (place : Place) :
    (o.append o').nodes place = o.nodes place ++ o'.nodes place := by
  induction o with
  | nil => rfl
  | cons b below next _ ihNext =>
    rw [append, nodes, nodes, ihNext, List.cons_append, List.append_assoc]

theorem size_append (o o' : Outline) : (o.append o').size = o.size + o'.size := by
  rw [← length_nodes _ .top, nodes_append, List.length_append, length_nodes, length_nodes]

theorem append_nil (o : Outline) : o.append .nil = o := by
  induction o with
  | nil => rfl
  | cons b below next _ ihNext => rw [append, ihNext]

theorem append_assoc (o o' o'' : Outline) :
    (o.append o').append o'' = o.append (o'.append o'') := by
  induction o with
  | nil => rfl
  | cons b below next _ ihNext => rw [append, append, append, ihNext]

theorem eq_nil_of_tops {o : Outline} (h : o.tops = []) : o = .nil := by
  cases o with
  | nil => rfl
  | cons b below next => cases h

theorem perm_cons_append_append (n : Node) (as bs cs : List Node) :
    (n :: (as ++ (bs ++ cs))).Perm (bs ++ n :: (as ++ cs)) :=
  (List.perm_append_comm_assoc as bs cs |>.cons n).trans List.perm_middle.symm

/-- The entries of an outline can be put in any order. -/
theorem exists_reordered {o : Outline} {ids : List BlockId} (h : o.tops.Perm ids) :
    ∃ o' : Outline, o'.tops = ids ∧ ∀ place, (o'.nodes place).Perm (o.nodes place) := by
  generalize ht : o.tops = tops at h
  induction h generalizing o with
  | nil => exact ⟨o, ht, fun _ => .refl _⟩
  | cons id _ ih =>
    cases o with
    | nil => cases ht
    | cons b below next =>
      obtain ⟨hid, hnext⟩ := List.cons.inj ht
      obtain ⟨o', ho, hp⟩ := ih hnext
      exact ⟨.cons b below o', by rw [Outline.tops, ho, hid],
        fun place => ((hp place).append_left _).cons _⟩
  | swap id id' ids =>
    rcases o with _ | ⟨b, below, _ | ⟨b', below', next⟩⟩
    · cases ht
    · cases ht
    · obtain ⟨hid, hrest⟩ := List.cons.inj ht
      obtain ⟨hid', hids⟩ := List.cons.inj hrest
      refine ⟨.cons b' below' (.cons b below next), ?_, fun place => ?_⟩
      · rw [Outline.tops, Outline.tops, hid, hid', ← hids]
      · exact List.perm_append_comm_assoc (⟨b', place, below'.tops⟩ :: below'.nodes (.under b'.id))
          (⟨b, place, below.tops⟩ :: below.nodes (.under b.id)) (next.nodes place)
  | trans _ _ ih₁ ih₂ =>
    obtain ⟨o₁, ho₁, hp₁⟩ := ih₁ ht
    obtain ⟨o₂, ho₂, hp₂⟩ := ih₂ ho₁
    exact ⟨o₂, ho₂, fun place => (hp₂ place).trans (hp₁ place)⟩

/-- The outline without the entry of a block on its first level. -/
def without (id : BlockId) : Outline → Outline
  | .nil => .nil
  | .cons b below next => if b.id = id then next else .cons b below (next.without id)

/-! ## Kinds -/

/-- The outline with another kind of one block. -/
def withKind (id : BlockId) (kind : BlockKind) : Outline → Outline
  | .nil => .nil
  | .cons b below next =>
    .cons (if b.id = id then { b with kind } else b) (below.withKind id kind)
      (next.withKind id kind)

theorem id_withKind (b : Block) (id : BlockId) (kind : BlockKind) :
    (if b.id = id then { b with kind } else b).id = b.id := by
  split <;> rfl

theorem tops_withKind (id : BlockId) (kind : BlockKind) (o : Outline) :
    (o.withKind id kind).tops = o.tops := by
  induction o with
  | nil => rfl
  | cons b below next _ ihNext => rw [withKind, tops, tops, ihNext, id_withKind]

theorem ids_withKind (id : BlockId) (kind : BlockKind) (o : Outline) :
    (o.withKind id kind).ids = o.ids := by
  induction o with
  | nil => rfl
  | cons b below next ihBelow ihNext =>
    rw [withKind, ids, ids, ihBelow, ihNext, id_withKind]

theorem nodes_withKind (id : BlockId) (kind : BlockKind) (o : Outline) (place : Place) :
    (o.withKind id kind).nodes place = (o.nodes place).map fun n =>
      if n.block.id = id then { n with block := { n.block with kind } } else n := by
  induction o generalizing place with
  | nil => rfl
  | cons b below next ihBelow ihNext =>
    rw [withKind, nodes, nodes, List.map_cons, List.map_append, ihNext, id_withKind, ihBelow,
      tops_withKind]
    congr 1
    split <;> rfl

/-! ## Levels -/

/-- The outline below a block. -/
def below? (id : BlockId) : Outline → Option Outline
  | .nil => none
  | .cons b below next => if b.id = id then some below else (below.below? id).or (next.below? id)

/-- The outline with another one below a block. -/
def withBelow (id : BlockId) : Outline → Outline → Outline
  | .nil, _ => .nil
  | .cons b below next, l =>
    if b.id = id then .cons b l next else .cons b (below.withBelow id l) (next.withBelow id l)

/-- The outline that stands at a place. -/
def level? (o : Outline) : Place → Option Outline
  | .top => some o
  | .under id => o.below? id

/-- The outline with another one at a place. -/
def withLevel (o : Outline) (l : Outline) : Place → Outline
  | .top => l
  | .under id => o.withBelow id l

theorem below?_eq_none {id : BlockId} {o : Outline} (h : id ∉ o.ids) : o.below? id = none := by
  induction o with
  | nil => rfl
  | cons b below next ihBelow ihNext =>
    rw [ids, List.mem_cons, List.mem_append, not_or, not_or] at h
    rw [below?, if_neg (Ne.symm h.1), ihBelow h.2.1, ihNext h.2.2]
    rfl

theorem exists_below? {id : BlockId} {o : Outline} (h : id ∈ o.ids) :
    ∃ l, o.below? id = some l := by
  induction o with
  | nil => exact absurd h List.not_mem_nil
  | cons b below next ihBelow ihNext =>
    rw [below?]
    split
    · exact ⟨below, rfl⟩
    · rename_i hb
      rw [ids, List.mem_cons, List.mem_append] at h
      rcases h with rfl | h | h
      · exact absurd rfl hb
      · obtain ⟨l, hl⟩ := ihBelow h
        exact ⟨l, by rw [hl]; rfl⟩
      · obtain ⟨l, hl⟩ := ihNext h
        rcases hb' : below.below? id with _ | l'
        · exact ⟨l, by rw [hl]; rfl⟩
        · exact ⟨l', rfl⟩

theorem withBelow_of_not_mem {id : BlockId} {o : Outline} (h : id ∉ o.ids) (l : Outline) :
    o.withBelow id l = o := by
  induction o with
  | nil => rfl
  | cons b below next ihBelow ihNext =>
    rw [ids, List.mem_cons, List.mem_append, not_or, not_or] at h
    rw [withBelow, if_neg (Ne.symm h.1), ihBelow h.2.1, ihNext h.2.2]

theorem tops_withBelow (id : BlockId) (o l : Outline) : (o.withBelow id l).tops = o.tops := by
  induction o with
  | nil => rfl
  | cons b below next _ ihNext =>
    rw [withBelow]
    split
    · rfl
    · rw [tops, tops, ihNext]

theorem mem_ids_of_below? {id : BlockId} {o l : Outline} (h : o.below? id = some l) :
    id ∈ o.ids := by
  by_contra hid
  rw [below?_eq_none hid] at h
  cases h

/-- The entry of a block is the first one, or below that one, or a later one. -/
theorem below?_cons_cases {id : BlockId} {b : Block} {below next l : Outline}
    (h : (cons b below next).below? id = some l) :
    (b.id = id ∧ below = l) ∨ (b.id ≠ id ∧ below.below? id = some l) ∨
      (b.id ≠ id ∧ id ∉ below.ids ∧ next.below? id = some l) := by
  rw [below?] at h
  split at h
  · rename_i hb
    exact .inl ⟨hb, Option.some.inj h⟩
  · rename_i hb
    rcases hbelow : below.below? id with _ | l'
    · refine .inr (.inr ⟨hb, fun hid => ?_, by rwa [hbelow, Option.none_or] at h⟩)
      obtain ⟨l', hl'⟩ := exists_below? hid
      rw [hbelow] at hl'
      cases hl'
    · exact .inr (.inl ⟨hb, by rwa [hbelow, Option.some_or] at h⟩)

theorem nodup_cons_iff {b : Block} {below next : Outline} : (cons b below next).ids.Nodup ↔
    (b.id ∉ below.ids ∧ b.id ∉ next.ids) ∧ below.ids.Nodup ∧ next.ids.Nodup ∧
      below.ids.Disjoint next.ids := by
  rw [ids, List.nodup_cons, List.mem_append, not_or, List.nodup_append']

theorem exists_rest_withBelow {id : BlockId} {o l : Outline} (hn : o.ids.Nodup)
    (hl : o.below? id = some l) (place : Place) :
    ∃ rest : List Node, (o.nodes place).Perm (l.nodes (.under id) ++ rest) ∧ ∀ l' : Outline,
      ((o.withBelow id l').nodes place).Perm
        (l'.nodes (.under id) ++ rest.map (Node.relisted (.under id) l'.tops)) := by
  induction o generalizing place with
  | nil => cases hl
  | cons b below next ihBelow ihNext =>
    obtain ⟨⟨hbBelow, hbNext⟩, hnBelow, hnNext, hdisj⟩ := nodup_cons_iff.1 hn
    have hnode : b.id ≠ id → ∀ ids, Node.relisted (.under id) ids ⟨b, place, below.tops⟩ =
        ⟨b, place, below.tops⟩ := fun hb ids => if_neg fun h => hb (Place.under.inj h).symm
    rcases below?_cons_cases hl with ⟨rfl, rfl⟩ | ⟨hb, hbelow⟩ | ⟨hb, hid, hnext⟩
    · refine ⟨⟨b, place, below.tops⟩ :: next.nodes place, List.perm_middle.symm, fun l' => ?_⟩
      have hself : Node.relisted (.under b.id) l'.tops ⟨b, place, below.tops⟩ =
          ⟨b, place, l'.tops⟩ := if_pos rfl
      rw [withBelow, if_pos rfl, nodes, List.map_cons, hself, map_relisted_nodes hbNext]
      exact List.perm_middle.symm
    · have hid : id ∉ next.ids := hdisj (mem_ids_of_below? hbelow)
      obtain ⟨rest, hrest, hset⟩ := ihBelow hnBelow hbelow (.under b.id)
      refine ⟨⟨b, place, below.tops⟩ :: (rest ++ next.nodes place), ?_, fun l' => ?_⟩
      · rw [← List.perm_middle.symm.congr_right, ← List.append_assoc]
        exact (hrest.append_right _).cons _
      · rw [withBelow, if_neg hb, withBelow_of_not_mem hid, nodes, tops_withBelow, List.map_cons,
          hnode hb, List.map_append, map_relisted_nodes hid,
          ← List.perm_middle.symm.congr_right, ← List.append_assoc]
        exact ((hset l').append_right _).cons _
    · obtain ⟨rest, hrest, hset⟩ := ihNext hnNext hnext place
      refine ⟨⟨b, place, below.tops⟩ :: (below.nodes (.under b.id) ++ rest), ?_, fun l' => ?_⟩
      · exact ((hrest.append_left _).cons _).trans (perm_cons_append_append _ _ _ _)
      · rw [withBelow, if_neg hb, withBelow_of_not_mem hid, nodes, List.map_cons, hnode hb,
          List.map_append, map_relisted_nodes hid]
        exact (((hset l').append_left _).cons _).trans (perm_cons_append_append _ _ _ _)

/-- **The nodes of a level and the rest.** If another outline is put at a place, its nodes take the
place of those of the level, and of the rest only the owner of the level is written anew. -/
theorem exists_rest {o l : Outline} {place : Place} (hn : o.ids.Nodup)
    (hl : o.level? place = some l) :
    ∃ rest : List Node, (o.nodes .top).Perm (l.nodes place ++ rest) ∧ ∀ l' : Outline,
      ((o.withLevel l' place).nodes .top).Perm
        (l'.nodes place ++ rest.map (Node.relisted place l'.tops)) := by
  cases place with
  | top =>
    obtain rfl := Option.some.inj hl
    exact ⟨[], by rw [List.append_nil], fun l' => by rw [List.map_nil, List.append_nil]; rfl⟩
  | under id => exact exists_rest_withBelow hn hl .top

end Outline

end Blockscript
