import Mathlib.Data.List.InsertIdx
import Blockscript.Proofs.Forest.Same
import Blockscript.Proofs.Forest.WellFormed

/-!
# Moving a block among its siblings

To move a block to the position of a sibling is to take it out of their order and to put it in again
where the sibling stood before. `Moved` says what that leaves behind: the block at the position of
the sibling, the others in the order they had, and nothing else changed; and that the way back is
one more move. Every forest moves blocks in this way, and refuses only what are not two siblings
(`reorder_moved`).
-/

namespace Blockscript

namespace Forest

/-! ## Lists -/

section Lists

variable {ids : List BlockId} {a o : BlockId}

theorem moveTo_eq (ids : List BlockId) (a o : BlockId) :
    moveTo ids a o = (ids.eraseIdx (ids.idxOf a)).insertIdx (ids.idxOf o) a := by
  unfold moveTo
  rw [List.erase_eq_eraseIdx_of_idxOf rfl]

/-- Where the goal stood is still a position once the block is taken out. -/
theorem idxOf_le_length_eraseIdx (ha : a ∈ ids) (ho : o ∈ ids) :
    ids.idxOf o ≤ (ids.eraseIdx (ids.idxOf a)).length := by
  have hgoal := List.idxOf_lt_length_of_mem ho
  rw [List.length_eraseIdx_of_lt (List.idxOf_lt_length_of_mem ha)]
  omega

theorem nodup_moveTo (hn : ids.Nodup) (ha : a ∈ ids) (ho : o ∈ ids) : (moveTo ids a o).Nodup :=
  (moveTo_perm ha ho).nodup_iff.2 hn

/-- The block stands where the goal stood. -/
theorem idxOf_moveTo (hn : ids.Nodup) (ha : a ∈ ids) (ho : o ∈ ids) :
    (moveTo ids a o).idxOf a = ids.idxOf o := by
  obtain ⟨hlt, hget⟩ := List.getElem?_eq_some_iff.1 (getElem?_moveTo ha ho)
  have hidx := (nodup_moveTo hn ha ho).idxOf_getElem _ hlt
  rwa [hget] at hidx

/-- Without the block, nothing was moved. -/
theorem eraseIdx_moveTo (ids : List BlockId) (a o : BlockId) :
    (moveTo ids a o).eraseIdx (ids.idxOf o) = ids.eraseIdx (ids.idxOf a) := by
  rw [moveTo_eq, List.eraseIdx_insertIdx_self]

/-- The others keep their order. -/
theorem filter_moveTo (hn : ids.Nodup) (ha : a ∈ ids) (ho : o ∈ ids) :
    (moveTo ids a o).filter (· != a) = ids.filter (· != a) := by
  rw [← (nodup_moveTo hn ha ho).erase_eq_filter, ← hn.erase_eq_filter,
    List.erase_eq_eraseIdx_of_idxOf (idxOf_moveTo hn ha ho), eraseIdx_moveTo,
    List.erase_eq_eraseIdx_of_idxOf rfl]

/-- **The way back.** Moved to the position of what stands now where it stood, the block comes back
to its place in the list. -/
theorem exists_moveTo_moveTo (hn : ids.Nodup) (hne : a ≠ o) (ha : a ∈ ids) (ho : o ∈ ids) :
    ∃ o', (moveTo ids a o)[ids.idxOf a]? = some o' ∧ a ≠ o' ∧
      moveTo (moveTo ids a o) a o' = ids := by
  have hfrom := List.idxOf_lt_length_of_mem ha
  have hlt : ids.idxOf a < (moveTo ids a o).length := by
    rwa [(moveTo_perm ha ho).length_eq]
  have hidx := (nodup_moveTo hn ha ho).idxOf_getElem _ hlt
  refine ⟨(moveTo ids a o)[ids.idxOf a], List.getElem?_eq_getElem hlt, ?_, ?_⟩
  · intro he
    -- The block would stand at both positions.
    rw [← he, idxOf_moveTo hn ha ho] at hidx
    have hsame := List.getElem?_idxOf ha
    rw [← hidx, List.getElem?_idxOf ho] at hsame
    exact hne (Option.some.inj hsame).symm
  · rw [moveTo_eq (moveTo ids a o), hidx, idxOf_moveTo hn ha ho, eraseIdx_moveTo]
    have hback := List.insertIdx_eraseIdx_getElem hfrom
    rwa [List.getElem_idxOf] at hback

end Lists

/-! ## Orders -/

section Orders

variable {f g : Forest} {place place' : Place}

theorem order_withOrder_of_ne (f : Forest) (h : place' ≠ place) (ids : List BlockId) :
    (f.withOrder place ids).order place' = f.order place' := by
  cases place with
  | top =>
    cases place' with
    | top => exact absurd rfl h
    | under id' => rfl
  | under id =>
    cases place' with
    | top => rfl
    | under id' =>
      have hnode := node?_mapNode f id id' (fun n => { n with below := ids }) fun _ => rfl
      rw [withOrder, order, hnode, order]
      rcases hn : f.node? id' with _ | n
      · rfl
      · have hne : n.block.id ≠ id := by
          intro he
          exact h (by rw [← he, id_of_node? hn])
        rw [Option.map_some, if_neg hne]

theorem place?_withOrder (f : Forest) (place : Place) (ids : List BlockId) (id : BlockId) :
    (f.withOrder place ids).place? id = f.place? id := by
  cases place with
  | top => rfl
  | under owner =>
    have hnode := node?_mapNode f owner id (fun n => { n with below := ids }) fun _ => rfl
    rw [withOrder, place?, hnode, place?, Option.map_map]
    refine Option.map_congr fun n _ => ?_
    rw [Function.comp_apply]
    split <;> rfl

theorem mapNode_mapNode (f : Forest) (id : BlockId) (change change' : Node → Node)
    (hc : ∀ n, (change n).block.id = n.block.id) :
    (f.mapNode id change).mapNode id change' = f.mapNode id fun n => change' (change n) := by
  unfold mapNode
  rw [List.map_map]
  congr 1
  refine List.map_congr_left fun n _ => ?_
  by_cases h : n.block.id = id <;> simp [h, hc]

theorem withOrder_withOrder (f : Forest) (place : Place) (ids ids' : List BlockId) :
    (f.withOrder place ids).withOrder place ids' = f.withOrder place ids' := by
  cases place with
  | top => rfl
  | under id => exact f.mapNode_mapNode id _ _ fun _ => rfl

namespace Represents

variable {o : Outline} {a b : BlockId}

theorem withOrder_order (h : f.Represents o) (place : Place) :
    f.withOrder place (f.order place) = f := by
  cases place with
  | top => rfl
  | under id =>
    have hnodes : (f.nodes.map fun n =>
        if n.block.id = id then { n with below := f.order (.under id) } else n) = f.nodes := by
      refine (List.map_congr_left fun n hn => ?_).trans (List.map_id _)
      split
      · rename_i hid
        rw [← hid, h.order_of_mem hn]
        rfl
      · rfl
    rw [withOrder, mapNode, hnodes]

theorem nodup_order (h : f.Represents o) (place : Place) : (f.order place).Nodup := by
  by_cases hne : f.order place = []
  · rw [hne]
    exact List.nodup_nil
  · obtain ⟨id, hid⟩ := List.exists_mem_of_ne_nil _ hne
    obtain ⟨l, hl⟩ := h.exists_level_of_mem_order hid
    have hn : l.ids.Nodup := h.nodup.sublist (Outline.ids_sublist_of_level? hl)
    rw [h.order_eq hl]
    exact hn.sublist l.tops_sublist_ids

end Represents

end Orders

/-! ## Moves -/

/-- Whether a forest is left by moving a block among the blocks at a place to the position of
another one. -/
structure Moved (f g : Forest) (a o : BlockId) (place : Place) : Prop where
  active : f.place? a = some place
  goal : f.place? o = some place
  active_mem : a ∈ f.order place
  goal_mem : o ∈ f.order place
  /-- The block is taken out and put in where the goal stood, which is no position past the end. -/
  order_eq : g.order place =
    ((f.order place).eraseIdx ((f.order place).idxOf a)).insertIdx ((f.order place).idxOf o) a
  inside : (f.order place).idxOf o ≤
    ((f.order place).eraseIdx ((f.order place).idxOf a)).length
  arrived : (g.order place)[(f.order place).idxOf o]? = some a
  perm : (g.order place).Perm (f.order place)
  others : (g.order place).filter (· != a) = (f.order place).filter (· != a)
  role_eq : g.role = f.role
  order_of_ne : ∀ place' ≠ place, g.order place' = f.order place'
  ids_eq : g.ids = f.ids
  get?_eq : ∀ id, g.get? id = f.get? id
  place?_eq : ∀ id, g.place? id = f.place? id
  /-- Moving the block to what stands now where it stood gives the very forest back. -/
  back : ∃ o', (g.order place)[(f.order place).idxOf a]? = some o' ∧ g.reorder? a o' = some f

section Moves

variable {f g : Forest} {o : Outline} {a b : BlockId}

theorem contains_eq_isSome_place? (f : Forest) (id : BlockId) :
    f.contains id = (f.place? id).isSome := by
  rw [contains, place?, Option.isSome_map]

/-- **Two siblings**, and nothing else, are accepted. -/
theorem Represents.exists_reorder?_iff (h : f.Represents o) : (∃ g, f.reorder? a b = some g) ↔
    a ≠ b ∧ f.contains a = true ∧ f.contains b = true ∧ f.place? a = f.place? b := by
  rw [contains_eq_isSome_place?, contains_eq_isSome_place?]
  constructor
  · rintro ⟨g, hg⟩
    obtain ⟨place, ha, hb, hne, -⟩ := reorder?_eq_some_iff.1 hg
    rw [ha, hb]
    exact ⟨hne, rfl, rfl, rfl⟩
  · rintro ⟨hne, ha, -, hsame⟩
    obtain ⟨place, hplace⟩ := Option.isSome_iff_exists.1 ha
    have hgoal := hsame.symm.trans hplace
    exact ⟨_, reorder?_eq_some_iff.2 ⟨place, hplace, hgoal, hne, h.mem_order_iff.2 hplace,
      h.mem_order_iff.2 hgoal, rfl⟩⟩

theorem Represents.exists_reorder?_back (h : f.Represents o) {place : Place} (hne : a ≠ b)
    (ha : a ∈ f.order place) (hb : b ∈ f.order place) :
    ∃ b', (moveTo (f.order place) a b)[(f.order place).idxOf a]? = some b' ∧
      (f.withOrder place (moveTo (f.order place) a b)).reorder? a b' = some f := by
  obtain ⟨b', hb', hne', hback⟩ := exists_moveTo_moveTo (h.nodup_order place) hne ha hb
  have hperm := moveTo_perm ha hb
  have hmem := List.mem_of_getElem? hb'
  have horder : (f.withOrder place (moveTo (f.order place) a b)).order place =
      moveTo (f.order place) a b := order_withOrder (List.ne_nil_of_mem ha)
  refine ⟨b', hb', reorder?_eq_some_iff.2 ⟨place, ?_, ?_, hne', ?_, ?_, ?_⟩⟩
  · rw [place?_withOrder, h.mem_order_iff.1 ha]
  · rw [place?_withOrder, h.mem_order_iff.1 (hperm.subset hmem)]
  · rw [horder]
    exact hperm.symm.subset ha
  · rwa [horder]
  · rw [horder, hback, withOrder_withOrder, h.withOrder_order]

/-- **A move** takes one block to the position of another one and leaves all else alone. -/
theorem Represents.moved (h : f.Represents o) (hg : f.reorder? a b = some g) :
    ∃ place, f.Moved g a b place := by
  have hids := ids_of_reorder? hg
  have hget := get?_of_reorder? hg
  obtain ⟨place, hplace, hgoal, hne, ha, hb, rfl⟩ := reorder?_eq_some_iff.1 hg
  have hn := h.nodup_order place
  have horder : (f.withOrder place (moveTo (f.order place) a b)).order place =
      moveTo (f.order place) a b := order_withOrder (List.ne_nil_of_mem ha)
  refine ⟨place, ?_⟩
  constructor
  case active => exact hplace
  case goal => exact hgoal
  case active_mem => exact ha
  case goal_mem => exact hb
  case order_eq => rw [horder, moveTo_eq]
  case inside => exact idxOf_le_length_eraseIdx ha hb
  case arrived => rw [horder, getElem?_moveTo ha hb]
  case perm => rw [horder]; exact moveTo_perm ha hb
  case others => rw [horder, filter_moveTo hn ha hb]
  case role_eq => exact role_withOrder f place _
  case order_of_ne => exact fun place' hne' => f.order_withOrder_of_ne hne' _
  case ids_eq => exact hids
  case get?_eq => exact hget
  case place?_eq => exact f.place?_withOrder place _
  case back => rw [horder]; exact h.exists_reorder?_back hne ha hb

end Moves

/-- **Moving blocks.** Any forest, wherever it comes from and whatever the edits, moves a block to
the position of another one exactly if the two are siblings, and then one block has moved. -/
theorem reorder_moved (origin : Origin) (es : List Edit) (a o : BlockId) :
    ((∃ g, (origin.forest.editAll es).reorder? a o = some g) ↔
      a ≠ o ∧ (origin.forest.editAll es).contains a = true ∧
        (origin.forest.editAll es).contains o = true ∧
        (origin.forest.editAll es).place? a = (origin.forest.editAll es).place? o) ∧
      ∀ g, (origin.forest.editAll es).reorder? a o = some g →
        ∃ place, (origin.forest.editAll es).Moved g a o place := by
  have h := (origin.built.editAll es).represents
  exact ⟨h.exists_reorder?_iff, fun g hg => h.moved hg⟩

/-- Forwards the block comes to stand behind its goal, backwards in front of it. -/
example : moveTo [⟨0⟩, ⟨1⟩, ⟨2⟩, ⟨3⟩] ⟨0⟩ ⟨2⟩ = [⟨1⟩, ⟨2⟩, ⟨0⟩, ⟨3⟩] ∧
    moveTo [⟨1⟩, ⟨2⟩, ⟨0⟩, ⟨3⟩] ⟨0⟩ ⟨1⟩ = [⟨0⟩, ⟨1⟩, ⟨2⟩, ⟨3⟩] := by
  decide

end Forest

end Blockscript
