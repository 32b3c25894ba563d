import Blockscript.Proofs.Forest.Nodes

/-!
# Forests and the outlines they represent

A forest represents an outline if it has the nodes of the outline, in any order, under distinct
identifiers, and all of them fit its role. The views of a forest are then those of the outline:
`outline_eq`, `walk_eq`, `family_eq` and `sameStructure_iff`. The searches of a forest are bounded
by its size; `Holds` is what carries them through an outline.
-/

namespace Blockscript

/-- Whether a role has a kind of block at all. -/
def ForestRole.takes : ForestRole → BlockTag → Bool
  | .statements, tag => tag != .precondition
  | .preconditions, tag => tag == .precondition

/-- Whether a node has a kind of the role, and blocks below it only if it is a loop. -/
structure ForestRole.Fits (role : ForestRole) (n : Node) : Prop where
  takes : role.takes n.block.tag = true
  below : n.below ≠ [] → n.block.isContainer = true

/-- Only forests of statements have loops. -/
theorem ForestRole.eq_statements_of_takes {role : ForestRole} {b : Block}
    (h : role.takes b.tag = true) (hb : b.isContainer = true) : role = .statements := by
  cases role with
  | statements => rfl
  | preconditions =>
    have htag : b.tag = .precondition := beq_iff_eq.1 h
    have hfor : b.tag = .forEach := beq_iff_eq.1 hb
    rw [htag] at hfor
    cases hfor

theorem ForestRole.Fits.congr {role : ForestRole} {n m : Node} (h : role.Fits n)
    (htag : m.block.tag = n.block.tag) (hbelow : m.below ≠ [] → n.below ≠ []) : role.Fits m where
  takes := htag ▸ h.takes
  below hm := by
    have hn := h.below (hbelow hm)
    rw [Block.isContainer, BlockKind.isContainer] at hn ⊢
    exact (congrArg (· == BlockTag.forEach) htag).trans hn

/-- Whether a forest has the blocks of an outline, nested and ordered in that way. -/
structure Forest.Represents (f : Forest) (o : Outline) : Prop where
  roots : f.roots = o.tops
  nodes : f.nodes.Perm (o.nodes .top)
  nodup : o.ids.Nodup
  fits : ∀ n ∈ f.nodes, f.role.Fits n

namespace Outline

variable {b : Block} {below next : Outline} {id : BlockId} {l : Outline}

theorem below?_cons_of_below (hn : (cons b below next).ids.Nodup) (h : below.below? id = some l) :
    (cons b below next).below? id = some l := by
  have hne : b.id ≠ id := fun he => (nodup_cons_iff.1 hn).1.1 (he ▸ mem_ids_of_below? h)
  rw [below?, if_neg hne, h]
  rfl

theorem below?_cons_of_next (hn : (cons b below next).ids.Nodup) (h : next.below? id = some l) :
    (cons b below next).below? id = some l := by
  have hid := mem_ids_of_below? h
  have hne : b.id ≠ id := fun he => (nodup_cons_iff.1 hn).1.2 (he ▸ hid)
  have hbelow : id ∉ below.ids := fun hm => (nodup_cons_iff.1 hn).2.2.2 hm hid
  rw [below?, if_neg hne, below?_eq_none hbelow, h]
  rfl

theorem not_mem_ids_of_below? {o : Outline} (hn : o.ids.Nodup) (h : o.below? id = some l) :
    id ∉ l.ids := by
  induction o with
  | nil => cases h
  | cons b below next ihBelow ihNext =>
    obtain ⟨⟨hb, -⟩, hnBelow, hnNext, -⟩ := nodup_cons_iff.1 hn
    rcases below?_cons_cases h with ⟨rfl, rfl⟩ | ⟨-, h⟩ | ⟨-, -, h⟩
    · exact hb
    · exact ihBelow hnBelow h
    · exact ihNext hnNext h

/-- A node stands on the first level or on that of its owner. -/
theorem exists_level_of_mem_nodes {o : Outline} (hn : o.ids.Nodup) {place : Place} {n : Node}
    (h : n ∈ o.nodes place) : (n.place = place ∧ n.block.id ∈ o.tops) ∨
      ∃ owner l, n.place = .under owner ∧ o.below? owner = some l ∧ n.block.id ∈ l.tops := by
  induction o generalizing place with
  | nil => exact absurd h List.not_mem_nil
  | cons b below next ihBelow ihNext =>
    obtain ⟨-, hnBelow, hnNext, -⟩ := nodup_cons_iff.1 hn
    rw [nodes, List.mem_cons, List.mem_append] at h
    rcases h with rfl | h | h
    · exact .inl ⟨rfl, List.mem_cons_self⟩
    · right
      rcases ihBelow hnBelow h with ⟨hp, ht⟩ | ⟨owner, l, hp, hl, ht⟩
      · exact ⟨b.id, below, hp, if_pos rfl, ht⟩
      · exact ⟨owner, l, hp, below?_cons_of_below hn hl, ht⟩
    · rcases ihNext hnNext h with ⟨hp, ht⟩ | ⟨owner, l, hp, hl, ht⟩
      · exact .inl ⟨hp, List.mem_cons_of_mem b.id ht⟩
      · exact .inr ⟨owner, l, hp, below?_cons_of_next hn hl, ht⟩

/-- The node of a block lists the level below it. -/
theorem exists_mem_nodes_of_below? {o : Outline} (h : o.below? id = some l) (place : Place) :
    ∃ n ∈ o.nodes place, n.block.id = id ∧ n.below = l.tops := by
  induction o generalizing place with
  | nil => cases h
  | cons b below next ihBelow ihNext =>
    rcases below?_cons_cases h with ⟨hb, rfl⟩ | ⟨-, h⟩ | ⟨-, -, h⟩
    · exact ⟨⟨b, place, below.tops⟩, List.mem_cons_self, hb, rfl⟩
    · obtain ⟨n, hm, hn⟩ := ihBelow h (.under b.id)
      exact ⟨n, List.mem_cons_of_mem _ (List.mem_append_left _ hm), hn⟩
    · obtain ⟨n, hm, hn⟩ := ihNext h place
      exact ⟨n, List.mem_cons_of_mem _ (List.mem_append_right _ hm), hn⟩

theorem ids_sublist_of_below? {o : Outline} (h : o.below? id = some l) :
    l.ids.Sublist o.ids := by
  induction o with
  | nil => cases h
  | cons b below next ihBelow ihNext =>
    have hbelow : below.ids.Sublist (cons b below next).ids :=
      (List.sublist_append_left below.ids next.ids).cons b.id
    have hnext : next.ids.Sublist (cons b below next).ids :=
      (List.sublist_append_right below.ids next.ids).cons b.id
    rcases below?_cons_cases h with ⟨-, rfl⟩ | ⟨-, h⟩ | ⟨-, -, h⟩
    · exact hbelow
    · exact (ihBelow h).trans hbelow
    · exact (ihNext h).trans hnext

theorem ids_sublist_of_level? {o : Outline} {place : Place} (h : o.level? place = some l) :
    l.ids.Sublist o.ids := by
  cases place with
  | top => rw [Option.some.inj h]
  | under id => exact ids_sublist_of_below? h

theorem size_lt_of_below? {o : Outline} (h : o.below? id = some l) : l.size < o.size := by
  induction o with
  | nil => cases h
  | cons b below next ihBelow ihNext =>
    rw [size]
    rcases below?_cons_cases h with ⟨-, rfl⟩ | ⟨-, h⟩ | ⟨-, -, h⟩
    · omega
    · have := ihBelow h
      omega
    · have := ihNext h
      omega

theorem nodes_below?_subset {o : Outline} (hn : o.ids.Nodup) (h : o.below? id = some l)
    (place : Place) : l.nodes (.under id) ⊆ o.nodes place := by
  obtain ⟨rest, hrest, -⟩ := exists_rest_withBelow hn h place
  exact fun n hm => hrest.symm.subset (List.mem_append_left rest hm)

/-- What is below a block of a level is below it in the whole outline. -/
theorem below?_of_below? {o sub : Outline} {id' : BlockId} (hn : o.ids.Nodup)
    (h : o.below? id = some l) (hl : l.below? id' = some sub) : o.below? id' = some sub := by
  induction o with
  | nil => cases h
  | cons b below next ihBelow ihNext =>
    obtain ⟨-, hnBelow, hnNext, -⟩ := nodup_cons_iff.1 hn
    rcases below?_cons_cases h with ⟨-, rfl⟩ | ⟨-, h⟩ | ⟨-, -, h⟩
    · exact below?_cons_of_below hn hl
    · exact below?_cons_of_below hn (ihBelow hnBelow h)
    · exact below?_cons_of_next hn (ihNext hnNext h)

theorem below?_of_level? {o sub : Outline} {place : Place} (hn : o.ids.Nodup)
    (h : o.level? place = some l) (hl : l.below? id = some sub) : o.below? id = some sub := by
  cases place with
  | top => rwa [← Option.some.inj h] at hl
  | under owner => exact below?_of_below? hn h hl

/-- The nodes of an entry and of what is below it, and those of the other entries. -/
theorem exists_entry {o : Outline} (hn : o.ids.Nodup) (h : id ∈ o.tops) :
    ∃ b sub, b.id = id ∧ o.below? id = some sub ∧ ∀ place, (o.nodes place).Perm
      ((⟨b, place, sub.tops⟩ :: sub.nodes (.under id)) ++ (o.without id).nodes place) := by
  induction o with
  | nil => exact absurd h List.not_mem_nil
  | cons b below next _ ihNext =>
    obtain ⟨-, -, hnNext, -⟩ := nodup_cons_iff.1 hn
    rw [without]
    by_cases hb : b.id = id
    · rw [if_pos hb]
      exact ⟨b, below, hb, if_pos hb, fun place => by rw [← hb]; exact .refl _⟩
    · have ht : id ∈ next.tops := (List.mem_cons.1 h).resolve_left (Ne.symm hb)
      obtain ⟨c, sub, hc, hsub, hperm⟩ := ihNext hnNext ht
      refine ⟨c, sub, hc, below?_cons_of_next hn hsub, fun place => ?_⟩
      rw [if_neg hb]
      exact ((hperm place).append_left _).cons _ |>.trans (List.perm_append_comm_assoc
        (⟨b, place, below.tops⟩ :: below.nodes (.under b.id)) _ _)

theorem tops_without {o : Outline} (hn : o.ids.Nodup) :
    (o.without id).tops = o.tops.filter (· ≠ id) := by
  induction o with
  | nil => rfl
  | cons b below next _ ihNext =>
    obtain ⟨⟨-, hb⟩, -, hnNext, -⟩ := nodup_cons_iff.1 hn
    rw [without, tops]
    by_cases h : b.id = id
    · have hnext : next.tops.filter (· ≠ id) = next.tops := List.filter_eq_self.2 fun c hc =>
        decide_eq_true fun he => hb (h ▸ he ▸ next.tops_sublist_ids.subset hc)
      rw [if_pos h, List.filter_cons_of_neg (by simp [h]), hnext]
    · rw [if_neg h, List.filter_cons_of_pos (by simp [h]), tops, ihNext hnNext]

/-- The outline without its identifiers. -/
def anonymous : Outline → Outline
  | .nil => .nil
  | .cons b below next => .cons ⟨⟨0⟩, b.kind⟩ below.anonymous next.anonymous

end Outline

namespace Forest

/-! ## Searches -/

/-- Whether a forest finds the nodes of an outline whose first level stands at `place`. -/
def Holds (f : Forest) (place : Place) (o : Outline) : Prop :=
  ∀ n ∈ o.nodes place, f.node? n.block.id = some n

theorem holds_cons {f : Forest} {place : Place} {b : Block} {below next : Outline} :
    f.Holds place (.cons b below next) ↔ f.node? b.id = some ⟨b, place, below.tops⟩ ∧
      f.Holds (.under b.id) below ∧ f.Holds place next := by
  rw [Holds, Outline.nodes, List.forall_mem_cons, List.forall_mem_append]
  rfl

theorem outlineOf_tops {f : Forest} {o : Outline} {place : Place} (h : f.Holds place o) {depth : ℕ}
    (hd : o.size ≤ depth) : f.outlineOf depth o.tops = o := by
  induction o generalizing place depth with
  | nil => cases depth <;> rfl
  | cons b below next ihBelow ihNext =>
    obtain ⟨hb, hbelow, hnext⟩ := holds_cons.1 h
    rw [Outline.size] at hd
    obtain ⟨depth, rfl⟩ : ∃ d, depth = d + 1 := ⟨depth - 1, by omega⟩
    have hfirst := ihBelow hbelow (show below.size ≤ depth by omega)
    have hlater := ihNext hnext (show next.size ≤ depth + 1 by omega)
    rw [outlineOf] at hlater ⊢
    rw [Outline.tops, List.foldr_cons, hlater, hb]
    dsimp only
    rw [hfirst]

theorem visit_nil (f : Forest) (fuel : ℕ) : f.visit fuel [] = [] := by cases fuel <;> rfl

theorem visit_tops_append {f : Forest} {o : Outline} {place : Place} (h : f.Holds place o)
    (depth : ℕ) {fuel : ℕ} (hf : o.size ≤ fuel) (rest : List (ℕ × BlockId)) :
    f.visit fuel (o.tops.map (depth, ·) ++ rest) =
      o.walk depth ++ f.visit (fuel - o.size) rest := by
  induction o generalizing place depth fuel rest with
  | nil => rfl
  | cons b below next ihBelow ihNext =>
    obtain ⟨hb, hbelow, hnext⟩ := holds_cons.1 h
    rw [Outline.size] at hf
    obtain ⟨fuel, rfl⟩ : ∃ k, fuel = k + 1 := ⟨fuel - 1, by omega⟩
    have hfuel : fuel - below.size - next.size = fuel + 1 - (1 + below.size + next.size) := by omega
    rw [Outline.tops, List.map_cons, List.cons_append, visit, hb]
    dsimp only
    rw [ihBelow hbelow (depth + 1) (by omega), ihNext hnext depth (by omega), Outline.walk,
      Outline.size, List.cons_append, List.append_assoc, hfuel]

theorem sameBelow_cons {f g : Forest} {n m : Node} {id id' : BlockId} (hn : f.node? id = some n)
    (hm : g.node? id' = some m) (depth : ℕ) (ids ids' : List BlockId) :
    f.sameBelow g (depth + 1) (id :: ids) (id' :: ids') =
      (n.block.kind == m.block.kind && f.sameBelow g depth n.below m.below &&
        f.sameBelow g (depth + 1) ids ids') := by
  have hlength : ((id :: ids).length == (id' :: ids').length) = (ids.length == ids'.length) := by
    simp
  rw [sameBelow, sameBelow, List.zip_cons_cons, List.all_cons, hlength]
  dsimp only
  rw [hn, hm]
  exact Bool.and_left_comm _ _ _

theorem sameBelow_tops {f g : Forest} {o o' : Outline} {place place' : Place}
    (h : f.Holds place o) (h' : g.Holds place' o') {depth : ℕ} (hd : o.size ≤ depth) :
    f.sameBelow g depth o.tops o'.tops = true ↔ o.anonymous = o'.anonymous := by
  induction o generalizing place place' o' depth with
  | nil =>
    cases o' with
    | nil => cases depth <;> simp [sameBelow, Outline.tops]
    | cons b' below' next' =>
      cases depth <;> simp [sameBelow, Outline.tops, Outline.anonymous]
  | cons b below next ihBelow ihNext =>
    rw [Outline.size] at hd
    obtain ⟨depth, rfl⟩ : ∃ d, depth = d + 1 := ⟨depth - 1, by omega⟩
    cases o' with
    | nil => simp [sameBelow, Outline.tops, Outline.anonymous]
    | cons b' below' next' =>
      obtain ⟨hb, hbelow, hnext⟩ := holds_cons.1 h
      obtain ⟨hb', hbelow', hnext'⟩ := holds_cons.1 h'
      rw [Outline.tops, Outline.tops, sameBelow_cons hb hb', Bool.and_eq_true, Bool.and_eq_true,
        beq_iff_eq, ihBelow hbelow hbelow' (by omega), ihNext hnext hnext' (by omega)]
      simp [Outline.anonymous, and_assoc]

theorem find?_of_nodup {ns : List Node} (hn : (ns.map (·.block.id)).Nodup) {n : Node}
    (h : n ∈ ns) : ns.find? (·.block.id = n.block.id) = some n := by
  induction ns with
  | nil => exact absurd h List.not_mem_nil
  | cons m ns ih =>
    obtain ⟨hm, hn⟩ := List.nodup_cons.1 hn
    rcases List.mem_cons.1 h with rfl | h
    · exact List.find?_cons_of_pos (decide_eq_true rfl)
    · have hne : m.block.id ≠ n.block.id := fun he =>
        hm (List.mem_map.2 ⟨n, h, he.symm⟩)
      rw [List.find?_cons_of_neg (by simpa using hne)]
      exact ih hn h

namespace Represents

variable {f g : Forest} {o o' l : Outline} {id : BlockId} {place : Place} {n : Node}

theorem perm_ids (h : f.Represents o) : (f.nodes.map (·.block.id)).Perm o.ids := by
  rw [← o.map_id_nodes .top]
  exact h.nodes.map _

theorem node?_of_mem (h : f.Represents o) (hn : n ∈ f.nodes) : f.node? n.block.id = some n :=
  find?_of_nodup (h.perm_ids.nodup_iff.2 h.nodup) hn

theorem node?_eq_some_iff (h : f.Represents o) :
    f.node? id = some n ↔ n ∈ f.nodes ∧ n.block.id = id := by
  constructor
  · exact fun hn => ⟨List.mem_of_find?_eq_some hn, id_of_node? hn⟩
  · rintro ⟨hn, rfl⟩
    exact h.node?_of_mem hn

theorem holds (h : f.Represents o) : f.Holds .top o := fun _ hn =>
  h.node?_of_mem (h.nodes.symm.subset hn)

theorem size_eq (h : f.Represents o) : f.size = o.size := by
  rw [size, h.nodes.length_eq, Outline.length_nodes]

theorem size_le (h : f.Represents o) : o.size ≤ f.size := Nat.le_of_eq h.size_eq.symm

theorem contains_iff (h : f.Represents o) : f.contains id = true ↔ id ∈ o.ids := by
  rw [contains, Option.isSome_iff_exists, ← h.perm_ids.mem_iff, List.mem_map]
  exact exists_congr fun n => h.node?_eq_some_iff

/-- **The nested form** of the forest is the outline. -/
theorem outline_eq (h : f.Represents o) : f.outline = o := by
  rw [outline, h.roots, outlineOf_tops h.holds h.size_le]

/-- **The walk** through the forest is that through the outline. -/
theorem walk_eq (h : f.Represents o) : f.walk = o.walk 0 := by
  have hv := visit_tops_append h.holds 0 h.size_le []
  rwa [visit_nil, List.append_nil, List.append_nil, ← h.roots] at hv

/-- **Forests of the same structure** represent outlines that differ in identifiers only. -/
theorem sameStructure_iff (h : f.Represents o) (h' : g.Represents o') :
    f.sameStructure g = true ↔ o.anonymous = o'.anonymous := by
  rw [sameStructure, h.roots, h'.roots]
  exact sameBelow_tops h.holds h'.holds h.size_le

/-- A block stands on the level of its place. -/
theorem exists_level_of_node? (h : f.Represents o) (hn : f.node? id = some n) :
    ∃ l, o.level? n.place = some l ∧ id ∈ l.tops := by
  obtain ⟨hmem, rfl⟩ := h.node?_eq_some_iff.1 hn
  rcases Outline.exists_level_of_mem_nodes h.nodup (h.nodes.subset hmem) with
    ⟨hp, ht⟩ | ⟨owner, l, hp, hl, ht⟩
  · exact ⟨o, by rw [hp]; rfl, ht⟩
  · exact ⟨l, by rw [hp]; exact hl, ht⟩

/-- The blocks at a place are those of its level. -/
theorem order_eq (h : f.Represents o) (hl : o.level? place = some l) : f.order place = l.tops := by
  cases place with
  | top => rw [order, h.roots, Option.some.inj hl]
  | under owner =>
    obtain ⟨n, hn, rfl, hbelow⟩ := Outline.exists_mem_nodes_of_below? hl .top
    rw [order, h.holds n hn, Option.map_some, Option.getD_some, hbelow]

/-- A search from a block visits the block and all that is below it. -/
theorem visit_block (h : f.Represents o) (hl : o.below? id = some l) {fuel : ℕ}
    (hf : f.size ≤ fuel) : (f.visit fuel [(0, id)]).map (·.2.id) = id :: l.ids := by
  obtain ⟨n, hn, rfl, hbelow⟩ := Outline.exists_mem_nodes_of_below? hl .top
  have hsub := Outline.nodes_below?_subset h.nodup hl .top
  have hholds : f.Holds (.under n.block.id) l := fun m hm => h.holds m (hsub hm)
  have hlt : l.size < f.size := Nat.lt_of_lt_of_le (Outline.size_lt_of_below? hl) h.size_le
  obtain ⟨fuel, rfl⟩ : ∃ k, fuel = k + 1 := ⟨fuel - 1, by omega⟩
  have hv := visit_tops_append hholds 1 (show l.size ≤ fuel by omega) []
  rw [visit_nil, List.append_nil, List.append_nil] at hv
  rw [visit, h.holds n hn]
  dsimp only
  rw [hbelow, List.append_nil, hv, List.map_cons, Outline.map_walk_id]

/-- **The family** of a block is the block and all that is below it. -/
theorem family_eq (h : f.Represents o) (hl : o.below? id = some l) : f.family id = id :: l.ids :=
  h.visit_block hl (Nat.le_refl _)

end Represents

end Forest

end Blockscript
