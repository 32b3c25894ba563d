import Blockscript.Proofs.Block.Slots
import Blockscript.Proofs.Forest.Represents
import Blockscript.Forest.History

/-!
# Edits of a represented forest

Every edit takes a forest that represents an outline to one that represents another: adding,
removing and moving a block put another outline at one place (`Represents.relevel`), replacing a
field keeps the shape and changes one block. `Built` forests, made by any edits, therefore always
represent an outline (`exists_represents`).
-/

namespace Blockscript

namespace Forest

/-! ## Orders -/

@[simp] theorem role_withOrder (f : Forest) (place : Place) (ids : List BlockId) :
    (f.withOrder place ids).role = f.role := by cases place <;> rfl

@[simp] theorem nodes_withOrder (f : Forest) (place : Place) (ids : List BlockId) :
    (f.withOrder place ids).nodes = f.nodes.map (Node.relisted place ids) := by
  cases place with
  | top => exact (map_relisted_top ids f.nodes).symm
  | under id =>
    refine List.map_congr_left fun n _ => ?_
    by_cases h : n.block.id = id
    · rw [if_pos h, ← h, Node.relisted_under_self]
    · rw [if_neg h, Node.relisted_of_ne ids fun he => h (Place.under.inj he).symm]

theorem map_id_relisted (place : Place) (ids : List BlockId) (ns : List Node) :
    (ns.map (Node.relisted place ids)).map (·.block.id) = ns.map (·.block.id) := by
  rw [List.map_map]
  exact List.map_congr_left fun n _ => by rw [Function.comp_apply, Node.block_relisted]

namespace Represents

variable {f g : Forest} {o l : Outline} {place : Place} {b : Block} {id : BlockId}

theorem map_relisted_level (h : f.Represents o) (hl : o.level? place = some l)
    (ids : List BlockId) : (l.nodes place).map (Node.relisted place ids) = l.nodes place := by
  cases place with
  | top => exact map_relisted_top ids _
  | under id => exact Outline.map_relisted_nodes (Outline.not_mem_ids_of_below? h.nodup hl) ids _

/-- **Another level.** A forest that has the nodes of another outline for those of a level, and the
rest with the owner written anew, represents the outline with that level replaced. -/
theorem relevel (h : f.Represents o) (hl : o.level? place = some l) {l' : Outline}
    (hrole : g.role = f.role) (hroots : g.roots = (f.withOrder place l'.tops).roots)
    (hnodes : ∀ rest, f.nodes.Perm (l.nodes place ++ rest) →
      g.nodes.Perm (l'.nodes place ++ rest.map (Node.relisted place l'.tops)))
    (hnodup : (g.nodes.map (·.block.id)).Nodup) (hfits : ∀ n ∈ g.nodes, f.role.Fits n) :
    g.Represents (o.withLevel l' place) := by
  obtain ⟨rest, hrest, hset⟩ := Outline.exists_rest h.nodup hl
  have hperm := (hnodes rest (h.nodes.trans hrest)).trans (hset l').symm
  refine ⟨?_, hperm, ?_, fun n hn => hrole ▸ hfits n hn⟩
  · rw [hroots]
    cases place with
    | top => rfl
    | under id => exact h.roots.trans (Outline.tops_withBelow id o l').symm
  · rw [← Outline.map_id_nodes _ .top]
    exact (hperm.map _).nodup_iff.1 hnodup

end Represents

/-! ## Adding -/

theorem add?_eq_some_iff {f g : Forest} {place : Place} {b : Block} :
    f.add? place b = some g ↔ f.contains b.id = false ∧ f.admits b.tag place = true ∧
      g = { f.withOrder place (f.order place ++ [b.id]) with
        nodes := ⟨b, place, []⟩ :: (f.withOrder place (f.order place ++ [b.id])).nodes } := by
  unfold add?
  split
  · rename_i h
    rw [Bool.or_eq_true, Bool.not_eq_true'] at h
    refine ⟨fun hn => (nomatch hn), fun ⟨hc, ha, _⟩ => ?_⟩
    rw [hc, ha] at h
    exact absurd h (by decide)
  · rename_i h
    rw [Bool.or_eq_true, not_or, Bool.not_eq_true, Bool.not_eq_true', Bool.not_eq_false] at h
    constructor
    · exact fun hs => ⟨h.1, h.2, (Option.some.inj hs).symm⟩
    · rintro ⟨-, -, rfl⟩
      rfl

theorem admits_top (f : Forest) (tag : BlockTag) : f.admits tag .top = f.role.takes tag := by
  unfold admits ForestRole.takes
  cases f.role <;> rfl

theorem admits_under_iff {f : Forest} {tag : BlockTag} {id : BlockId} :
    f.admits tag (.under id) = true ↔ f.role = .statements ∧ f.role.takes tag = true ∧
      ∃ b, f.get? id = some b ∧ b.isContainer = true := by
  unfold admits ForestRole.takes
  rcases hb : f.get? id with _ | b <;> cases f.role <;> simp [hb]

theorem contains_eq_isSome_get? (f : Forest) (id : BlockId) :
    f.contains id = (f.get? id).isSome := by
  rw [contains, get?, Option.isSome_map]

theorem Represents.get?_of_mem {f : Forest} {o : Outline} (h : f.Represents o) {n : Node}
    (hn : n ∈ f.nodes) : f.get? n.block.id = some n.block := by
  rw [get?, h.node?_of_mem hn]
  rfl

/-- What may stand at a place is of the role's kinds, and the place is there. -/
theorem Represents.exists_level_of_admits {f : Forest} {o : Outline} (h : f.Represents o)
    {tag : BlockTag} {place : Place} (ha : f.admits tag place = true) :
    f.role.takes tag = true ∧ ∃ l, o.level? place = some l := by
  cases place with
  | top => exact ⟨by rwa [admits_top] at ha, o, rfl⟩
  | under id =>
    obtain ⟨-, htakes, b, hb, -⟩ := admits_under_iff.1 ha
    refine ⟨htakes, Outline.exists_below? ?_⟩
    rw [← h.contains_iff, contains_eq_isSome_get?, hb]
    rfl

theorem Represents.isContainer_of_admits {f : Forest} {o : Outline} (h : f.Represents o)
    {tag : BlockTag} {n : Node} (ha : f.admits tag (.under n.block.id) = true) (hn : n ∈ f.nodes) :
    n.block.isContainer = true := by
  obtain ⟨-, -, b, hb, hc⟩ := admits_under_iff.1 ha
  rw [h.get?_of_mem hn] at hb
  rwa [Option.some.inj hb]

/-- **Adding** a block puts it behind the last of its level. -/
theorem Represents.add {f g : Forest} {o : Outline} (h : f.Represents o) {place : Place} {b : Block}
    (hg : f.add? place b = some g) : ∃ l, o.level? place = some l ∧
      g.Represents (o.withLevel (l.append (.leaf b)) place) := by
  obtain ⟨hfresh, ha, rfl⟩ := add?_eq_some_iff.1 hg
  obtain ⟨htakes, l, hl⟩ := h.exists_level_of_admits ha
  have htops : f.order place ++ [b.id] = (l.append (.leaf b)).tops := by
    rw [Outline.tops_append, h.order_eq hl]
    rfl
  have hid : b.id ∉ f.nodes.map (·.block.id) := by
    rw [h.perm_ids.mem_iff, ← h.contains_iff, hfresh]
    exact Bool.false_ne_true
  refine ⟨l, hl, ?_⟩
  rw [htops]
  refine h.relevel hl (role_withOrder f place _) rfl (fun rest hrest => ?_) ?_ ?_
  · rw [nodes_withOrder, Outline.nodes_append]
    have hmap := hrest.map (Node.relisted place (l.append (.leaf b)).tops)
    rw [List.map_append, h.map_relisted_level hl] at hmap
    rw [List.append_assoc]
    exact (hmap.cons _).trans List.perm_middle.symm
  · rw [List.map_cons, nodes_withOrder, map_id_relisted]
    exact List.nodup_cons.2 ⟨hid, h.perm_ids.nodup_iff.2 h.nodup⟩
  · rw [nodes_withOrder, List.forall_mem_cons, List.forall_mem_map]
    refine ⟨⟨htakes, fun hb => absurd rfl hb⟩, fun n hn => ?_⟩
    by_cases hp : place = .under n.block.id
    · subst hp
      rw [Node.relisted_under_self]
      exact ⟨(h.fits n hn).takes, fun _ => h.isContainer_of_admits (n := n) ha hn⟩
    · rw [Node.relisted_of_ne _ hp]
      exact h.fits n hn

/-! ## Replacing a field -/

theorem update?_eq_some_iff {f g : Forest} {id : BlockId} {field : BlockField}
    {value : FieldValue} : f.update? id field value = some g ↔ ∃ n kind, f.node? id = some n ∧
      n.block.kind.update? field value = some kind ∧
      g = f.mapNode id fun n => { n with block := { n.block with kind } } := by
  unfold update?
  rw [Option.bind_eq_some_iff]
  refine exists_congr fun n => ?_
  rw [Option.map_eq_some_iff]
  constructor
  · rintro ⟨hn, kind, hk, rfl⟩
    exact ⟨kind, hn, hk, rfl⟩
  · rintro ⟨kind, hn, hk, rfl⟩
    exact ⟨hn, kind, hk, rfl⟩

/-- **Replacing** a field changes the kind of one block, to another of the same tag. -/
theorem Represents.update {f g : Forest} {o : Outline} (h : f.Represents o) {id : BlockId}
    {field : BlockField} {value : FieldValue} (hg : f.update? id field value = some g) :
    ∃ n kind, f.node? id = some n ∧ n.block.kind.update? field value = some kind ∧
      g.Represents (o.withKind id kind) := by
  obtain ⟨n, kind, hn, hk, rfl⟩ := update?_eq_some_iff.1 hg
  have htag : kind.tag = n.block.tag := by
    rw [(BlockKind.eq_withField_of_update? hk).1, BlockKind.tag_withField]
    rfl
  refine ⟨n, kind, hn, hk, ?_, ?_, ?_, ?_⟩
  · rw [Outline.tops_withKind]
    exact h.roots
  · rw [Outline.nodes_withKind]
    exact h.nodes.map _
  · rw [Outline.ids_withKind]
    exact h.nodup
  · refine List.forall_mem_map.2 fun m hm => ?_
    split
    · rename_i hid
      have hmn : m = n := by
        rw [← hid, h.node?_of_mem hm] at hn
        exact Option.some.inj hn
      rw [← hmn] at htag
      exact (h.fits m hm).congr htag fun hb => hb
    · exact h.fits m hm

/-! ## Moving -/

theorem moveTo_perm {ids : List BlockId} {a o : BlockId} (ha : a ∈ ids) (ho : o ∈ ids) :
    (moveTo ids a o).Perm ids := by
  have hlt := List.idxOf_lt_length_of_mem ho
  have hlength := List.length_erase_of_mem ha
  exact (List.perm_insertIdx a _ (by omega)).trans (List.perm_cons_erase ha).symm

theorem reorder?_eq_some_iff {f g : Forest} {a o : BlockId} :
    f.reorder? a o = some g ↔ ∃ place, f.place? a = some place ∧ f.place? o = some place ∧ a ≠ o ∧
      a ∈ f.order place ∧ o ∈ f.order place ∧
      g = f.withOrder place (moveTo (f.order place) a o) := by
  unfold reorder?
  constructor
  · intro h
    split at h
    · rename_i place place' ha ho
      split at h
      · rename_i hc
        obtain ⟨hne, rfl, hma, hmo⟩ := hc
        exact ⟨place, ha, ho, hne, hma, hmo, (Option.some.inj h).symm⟩
      · cases h
    · cases h
  · rintro ⟨place, ha, ho, hne, hma, hmo, rfl⟩
    rw [ha, ho]
    exact if_pos ⟨hne, rfl, hma, hmo⟩

theorem Represents.order_of_mem {f : Forest} {o : Outline} (h : f.Represents o) {n : Node}
    (hn : n ∈ f.nodes) : f.order (.under n.block.id) = n.below := by
  rw [order, h.node?_of_mem hn]
  rfl

/-- Nodes still fit if blocks are listed only where there were some. -/
theorem Represents.fits_relisted {f : Forest} {o : Outline} (h : f.Represents o) {place : Place}
    {ids : List BlockId} (hids : ids ≠ [] → f.order place ≠ []) :
    ∀ n ∈ f.nodes.map (Node.relisted place ids), f.role.Fits n := by
  refine List.forall_mem_map.2 fun n hn => ?_
  by_cases hp : place = .under n.block.id
  · subst hp
    rw [h.order_of_mem hn] at hids
    rw [Node.relisted_under_self]
    exact (h.fits n hn).congr rfl hids
  · rw [Node.relisted_of_ne _ hp]
    exact h.fits n hn

/-- **Moving** a block puts the entries of one level in another order. -/
theorem Represents.reorder {f g : Forest} {o : Outline} (h : f.Represents o) {a b : BlockId}
    (hg : f.reorder? a b = some g) : ∃ place l l', o.level? place = some l ∧
      l'.tops = moveTo l.tops a b ∧ (∀ place, (l'.nodes place).Perm (l.nodes place)) ∧
      g.Represents (o.withLevel l' place) := by
  obtain ⟨place, ha, -, -, hma, hmb, rfl⟩ := reorder?_eq_some_iff.1 hg
  obtain ⟨n, hn, rfl⟩ := Option.map_eq_some_iff.1 ha
  obtain ⟨l, hl, -⟩ := h.exists_level_of_node? hn
  have hfits : ∀ m ∈ f.nodes.map (Node.relisted n.place (moveTo (f.order n.place) a b)),
      f.role.Fits m := h.fits_relisted fun _ => List.ne_nil_of_mem hma
  rw [h.order_eq hl] at hma hmb hfits ⊢
  obtain ⟨l', hl', hnodes⟩ := Outline.exists_reordered (moveTo_perm hma hmb).symm
  refine ⟨n.place, l, l', hl, hl', hnodes, ?_⟩
  rw [← hl'] at hfits ⊢
  refine h.relevel hl (role_withOrder f _ _) rfl (fun rest hrest => ?_) ?_ ?_
  · have hmap := hrest.map (Node.relisted n.place l'.tops)
    rw [List.map_append, h.map_relisted_level hl] at hmap
    rw [nodes_withOrder]
    exact hmap.trans ((hnodes n.place).symm.append_right _)
  · rw [nodes_withOrder, map_id_relisted]
    exact h.perm_ids.nodup_iff.2 h.nodup
  · rw [nodes_withOrder]
    exact hfits

/-! ## Removing -/

theorem filter_not_mem_perm {ns as bs : List Node} (h : ns.Perm (as ++ bs))
    (hn : (ns.map (·.block.id)).Nodup) :
    (ns.filter fun m => m.block.id ∉ as.map (·.block.id)).Perm bs := by
  have hn' := (h.map (·.block.id)).nodup_iff.1 hn
  rw [List.map_append, List.nodup_append'] at hn'
  have has : as.filter (fun m => m.block.id ∉ as.map (·.block.id)) = [] :=
    List.filter_eq_nil_iff.2 fun m hm => by
      simpa using List.mem_map_of_mem (f := fun n : Node => n.block.id) hm
  have hbs : bs.filter (fun m => m.block.id ∉ as.map (·.block.id)) = bs :=
    List.filter_eq_self.2 fun m hm => decide_eq_true fun hc =>
      hn'.2.2 hc (List.mem_map_of_mem hm)
  have hf := h.filter fun m => m.block.id ∉ as.map (·.block.id)
  rwa [List.filter_append, has, hbs, List.nil_append] at hf

/-- **Removing** a block takes its entry out of its level, with all that is below it. -/
theorem Represents.remove {f g : Forest} {o : Outline} (h : f.Represents o) {id : BlockId}
    (hg : f.remove? id = some g) : ∃ n l, f.node? id = some n ∧ o.level? n.place = some l ∧
      id ∈ l.tops ∧ g.Represents (o.withLevel (l.without id) n.place) := by
  obtain ⟨n, hn, rfl⟩ := Option.map_eq_some_iff.1 hg
  obtain ⟨l, hl, ht⟩ := h.exists_level_of_node? hn
  have hnl : l.ids.Nodup := h.nodup.sublist (Outline.ids_sublist_of_level? hl)
  obtain ⟨b, sub, hb, hsub, hperm⟩ := Outline.exists_entry hnl ht
  have hgone : f.family id =
      ((⟨b, n.place, sub.tops⟩ :: sub.nodes (.under id)).map (·.block.id)) := by
    rw [h.family_eq (Outline.below?_of_level? h.nodup hl hsub), List.map_cons, Outline.map_id_nodes,
      hb]
  have horder : (f.order n.place).filter (· ≠ id) = (l.without id).tops := by
    rw [h.order_eq hl, Outline.tops_without hnl]
  refine ⟨n, l, hn, hl, ht, ?_⟩
  dsimp only
  rw [horder, hgone]
  have hnodup : ((f.withOrder n.place (l.without id).tops).nodes.map (·.block.id)).Nodup := by
    rw [nodes_withOrder, map_id_relisted]
    exact h.perm_ids.nodup_iff.2 h.nodup
  refine h.relevel hl (role_withOrder f _ _) rfl (fun rest hrest => ?_) ?_ ?_
  · have hmap := hrest.map (Node.relisted n.place (l.without id).tops)
    rw [List.map_append, h.map_relisted_level hl, ← nodes_withOrder] at hmap
    refine filter_not_mem_perm ?_ hnodup
    rw [← List.append_assoc]
    exact hmap.trans ((hperm n.place).append_right _)
  · exact hnodup.sublist (List.filter_sublist.map _)
  · intro m hm
    have hids : (l.without id).tops ≠ [] → f.order n.place ≠ [] := by
      rw [h.order_eq hl, Outline.tops_without hnl]
      exact fun hf he => hf (by rw [he]; rfl)
    have hm' := List.mem_of_mem_filter hm
    rw [nodes_withOrder] at hm'
    exact h.fits_relisted hids m hm'

/-! ## Any edits -/

theorem role_of_edit? {f g : Forest} {e : Edit} (h : f.edit? e = some g) : g.role = f.role := by
  cases e with
  | add place b =>
    obtain ⟨-, -, rfl⟩ := add?_eq_some_iff.1 h
    exact role_withOrder f place _
  | update id field value =>
    obtain ⟨-, -, -, -, rfl⟩ := update?_eq_some_iff.1 h
    rfl
  | remove id =>
    obtain ⟨n, -, rfl⟩ := Option.map_eq_some_iff.1 h
    exact role_withOrder f n.place _
  | reorder a o =>
    obtain ⟨place, -, -, -, -, -, rfl⟩ := reorder?_eq_some_iff.1 h
    exact role_withOrder f place _

/-- An edit of a forest that represents an outline leads to one that does. -/
theorem Represents.edit {f g : Forest} {o : Outline} (h : f.Represents o) {e : Edit}
    (hg : f.edit? e = some g) : ∃ o', g.Represents o' := by
  cases e with
  | add place b => exact (h.add hg).imp' _ fun _ hl => hl.2
  | update id field value =>
    obtain ⟨n, kind, -, -, hr⟩ := h.update hg
    exact ⟨_, hr⟩
  | remove id =>
    obtain ⟨n, l, -, -, -, hr⟩ := h.remove hg
    exact ⟨_, hr⟩
  | reorder a o =>
    obtain ⟨place, l, l', -, -, -, hr⟩ := h.reorder hg
    exact ⟨_, hr⟩

end Forest

end Blockscript
