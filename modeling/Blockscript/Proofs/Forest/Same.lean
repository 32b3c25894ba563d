import Blockscript.Proofs.Forest.Blocks

/-!
# The same forest

Two forests are the `Same` if they have the same blocks at the same places in the same orders; in
which order they keep their nodes makes no difference. Forests that represent outlines are the same
exactly if the outlines are equal (`same_iff`), and no edit that is accepted leaves the same forest
(`not_same_of_edit?`).
-/

namespace Blockscript

namespace Forest

/-- Whether two forests have the same blocks at the same places in the same orders. -/
structure Same (f g : Forest) : Prop where
  role_eq : g.role = f.role
  roots_eq : g.roots = f.roots
  node?_eq : ∀ id, g.node? id = f.node? id

namespace Same

variable {f g : Forest}

theorem refl (f : Forest) : f.Same f := ⟨rfl, rfl, fun _ => rfl⟩

theorem get?_eq (h : f.Same g) (id : BlockId) : g.get? id = f.get? id := by
  rw [get?, get?, h.node?_eq]

theorem contains_eq (h : f.Same g) (id : BlockId) : g.contains id = f.contains id := by
  rw [contains, contains, h.node?_eq]

theorem order_eq (h : f.Same g) (place : Place) : g.order place = f.order place := by
  cases place with
  | top => exact h.roots_eq
  | under id => rw [order, order, h.node?_eq]

end Same

/-! ## Represented forests -/

/-- **Represented forests** are the same exactly if their outlines are equal. -/
theorem Represents.same_iff {f g : Forest} {o o' : Outline} (h : f.Represents o)
    (h' : g.Represents o') (hrole : g.role = f.role) : f.Same g ↔ o = o' := by
  constructor
  · intro hsame
    -- Both outlines are read off the first forest, to a depth that suffices for either.
    have hholds : f.Holds .top o' := fun n hn => (hsame.node?_eq _).symm.trans (h'.holds n hn)
    have hroots : f.roots = o'.tops := hsame.roots_eq.symm.trans h'.roots
    calc o = f.outlineOf (max o.size o'.size) f.roots := by
          rw [h.roots, outlineOf_tops h.holds (Nat.le_max_left _ _)]
      _ = o' := by rw [hroots, outlineOf_tops hholds (Nat.le_max_right _ _)]
  · rintro rfl
    refine ⟨hrole, h'.roots.trans h.roots.symm, fun id => ?_⟩
    ext n
    rw [h.node?_eq_some_iff, h'.node?_eq_some_iff]
    have hmem : n ∈ g.nodes ↔ n ∈ f.nodes := (h'.nodes.trans h.nodes.symm).mem_iff
    rw [hmem]

/-! ## Edits -/

variable {f g : Forest}

theorem mem_family_self {id : BlockId} (h : f.contains id = true) : id ∈ f.family id := by
  obtain ⟨n, hn⟩ := Option.isSome_iff_exists.1 h
  have hpos : 0 < f.size := List.length_pos_of_mem (List.mem_of_find?_eq_some hn)
  obtain ⟨k, hk⟩ : ∃ k, f.size = k + 1 := ⟨f.size - 1, by omega⟩
  unfold family
  rw [hk, visit, hn]
  simp [id_of_node? hn]

theorem getElem?_moveTo {ids : List BlockId} {a o : BlockId} (ha : a ∈ ids) (ho : o ∈ ids) :
    (moveTo ids a o)[ids.idxOf o]? = some a := by
  have hlt := List.idxOf_lt_length_of_mem ho
  have hlength := List.length_erase_of_mem ha
  unfold moveTo
  rw [List.getElem?_insertIdx_self]
  rw [if_pos (by omega)]

/-- A block that is moved to the position of another one leaves another order. -/
theorem moveTo_ne {ids : List BlockId} {a o : BlockId} (hne : a ≠ o) (ha : a ∈ ids)
    (ho : o ∈ ids) : moveTo ids a o ≠ ids := by
  intro heq
  have hmoved := getElem?_moveTo ha ho
  rw [heq, List.getElem?_idxOf ho] at hmoved
  exact hne (Option.some.inj hmoved).symm

theorem order_withOrder {place : Place} {ids : List BlockId} (h : f.order place ≠ []) :
    (f.withOrder place ids).order place = ids := by
  cases place with
  | top => rfl
  | under id =>
    rcases hn : f.node? id with _ | n
    · simp [order, hn] at h
    · have hid : n.block.id = id := id_of_node? hn
      have hnode := node?_mapNode f id id (fun n => { n with below := ids }) fun _ => rfl
      rw [withOrder, order, hnode, hn, Option.map_some, if_pos hid]
      rfl

/-- A replacement that is accepted leaves another block. -/
theorem get?_ne_of_update? {id : BlockId} {field : BlockField} {value : FieldValue}
    (h : f.update? id field value = some g) : g.get? id ≠ f.get? id := by
  intro hsame
  obtain ⟨n, kind, hn, hk, -⟩ := update?_eq_some_iff.1 h
  obtain ⟨rfl, hne⟩ := BlockKind.eq_withField_of_update? hk
  have hget : f.get? id = some n.block := by rw [get?, hn, Option.map_some]
  have hget' := get?_of_update? h id
  rw [hsame, hget, Option.map_some, if_pos (id_of_node? hn)] at hget'
  exact hne (congrArg Block.kind (Option.some.inj hget')).symm

/-- A move that is accepted leaves another order. -/
theorem order_ne_of_reorder? {a o : BlockId} (h : f.reorder? a o = some g) {place : Place}
    (hplace : f.place? a = some place) : g.order place ≠ f.order place := by
  intro hsame
  obtain ⟨place', ha, -, hne, hma, hmo, rfl⟩ := reorder?_eq_some_iff.1 h
  obtain rfl := Option.some.inj (ha.symm.trans hplace)
  rw [order_withOrder (List.ne_nil_of_mem hma)] at hsame
  exact moveTo_ne hne hma hmo hsame

/-- **An edit** that is accepted leaves another forest. -/
theorem not_same_of_edit? {e : Edit} (h : f.edit? e = some g) : ¬ f.Same g := by
  intro hsame
  cases e with
  | add place b =>
    have hnew := (add?_eq_some_iff.1 h).1
    have hget := get?_of_add? h b.id
    rw [if_pos rfl, hsame.get?_eq, get?_eq_none_iff.2 hnew] at hget
    cases hget
  | update id field value => exact get?_ne_of_update? h (hsame.get?_eq id)
  | remove id =>
    have hmem := mem_family_self (contains_of_remove? h)
    have hgone : g.contains id ≠ true := fun hc => ((contains_of_remove?_iff h).1 hc).2 hmem
    rw [hsame.contains_eq] at hgone
    exact hgone (contains_of_remove? h)
  | reorder a o =>
    obtain ⟨place, ha, -⟩ := reorder?_eq_some_iff.1 h
    exact order_ne_of_reorder? h ha (hsame.order_eq place)

end Forest

end Blockscript
