import Blockscript.Proofs.Forest.Swept

/-!
# Blocks after an edit

What an edit does to a forest, told by the block found under each identifier and by the list of the
identifiers. For each edit there is one lemma about `ids` and one about `get?`.
-/

namespace Blockscript

namespace Forest

/-- The identifiers of the blocks. -/
def ids (f : Forest) : List BlockId := f.nodes.map (·.block.id)

variable {f g : Forest} {id : BlockId}

theorem ids_eq_nil_iff : f.ids = [] ↔ f.nodes = [] := List.map_eq_nil_iff

/-! ## Identifiers -/

theorem ids_withOrder (f : Forest) (place : Place) (order : List BlockId) :
    (f.withOrder place order).ids = f.ids := by
  rw [ids, nodes_withOrder, map_id_relisted]
  rfl

theorem ids_of_add? {place : Place} {b : Block} (h : f.add? place b = some g) :
    g.ids = b.id :: f.ids := by
  obtain ⟨-, -, rfl⟩ := add?_eq_some_iff.1 h
  rw [← ids_withOrder f place (f.order place ++ [b.id])]
  rfl

theorem ids_of_update? {field : BlockField} {value : FieldValue}
    (h : f.update? id field value = some g) : g.ids = f.ids := by
  obtain ⟨-, kind, -, -, rfl⟩ := update?_eq_some_iff.1 h
  rw [ids, mapNode, List.map_map]
  refine List.map_congr_left fun n _ => ?_
  rw [Function.comp_apply]
  split <;> rfl

theorem sublist_ids_of_remove? (h : f.remove? id = some g) : g.ids.Sublist f.ids := by
  obtain ⟨n, -, rfl⟩ := Option.map_eq_some_iff.1 h
  rw [← ids_withOrder f n.place ((f.order n.place).filter (· ≠ id))]
  exact List.filter_sublist.map _

theorem ids_of_reorder? {a o : BlockId} (h : f.reorder? a o = some g) : g.ids = f.ids := by
  obtain ⟨place, -, -, -, -, -, rfl⟩ := reorder?_eq_some_iff.1 h
  exact ids_withOrder f place _

/-! ## Searches -/

theorem id_of_get? {b : Block} (h : f.get? id = some b) : b.id = id := by
  obtain ⟨n, hn, rfl⟩ := Option.map_eq_some_iff.1 h
  exact id_of_node? hn

theorem node?_mapNode (f : Forest) (id id' : BlockId) (change : Node → Node)
    (hc : ∀ n, (change n).block.id = n.block.id) : (f.mapNode id change).node? id' =
      (f.node? id').map fun n => if n.block.id = id then change n else n := by
  have hid : (fun n : Node => decide (n.block.id = id')) ∘
      (fun n => if n.block.id = id then change n else n) =
        fun n => decide (n.block.id = id') := by
    funext n
    rw [Function.comp_apply]
    split
    · rw [hc]
    · rfl
  rw [node?, node?, mapNode, List.find?_map, hid]

theorem exists_get?_of_update? {field : BlockField} {value : FieldValue}
    (h : f.update? id field value = some g) : ∃ b, f.get? id = some b := by
  obtain ⟨n, kind, hn, -, -⟩ := update?_eq_some_iff.1 h
  exact ⟨n.block, by rw [get?, hn, Option.map_some]⟩

/-- The blocks after a replacement: one of them has the field replaced. -/
theorem get?_of_update? {field : BlockField} {value : FieldValue}
    (h : f.update? id field value = some g) (id' : BlockId) :
    g.get? id' = (f.get? id').map fun b =>
      if b.id = id then ⟨b.id, b.kind.withField field value⟩ else b := by
  obtain ⟨n, kind, hn, hk, rfl⟩ := update?_eq_some_iff.1 h
  obtain ⟨rfl, -⟩ := BlockKind.eq_withField_of_update? hk
  have hnode := node?_mapNode f id id'
    (fun m => { m with block := ⟨m.block.id, n.block.kind.withField field value⟩ }) fun _ => rfl
  rw [get?, get?, hnode, Option.map_map, Option.map_map]
  refine Option.map_congr fun m hm => ?_
  rw [Function.comp_apply, Function.comp_apply]
  by_cases hid : m.block.id = id
  · have hmn : m = n := by
      rw [← id_of_node? hm, hid, hn] at hm
      exact (Option.some.inj hm).symm
    rw [if_pos hid, if_pos hid, hmn]
  · rw [if_neg hid, if_neg hid]

theorem withField_of_update?_eq_none {field : BlockField} {value : FieldValue} {b : Block}
    (h : f.update? id field value = none) (hb : f.get? id = some b) :
    b.kind.withField field value = b.kind := by
  obtain ⟨n, hn, rfl⟩ := Option.map_eq_some_iff.1 hb
  rw [update?, hn, Option.bind_some, Option.map_eq_none_iff] at h
  exact BlockKind.update?_eq_none_iff.1 h

/-- The blocks after a replacement that may have changed nothing. -/
theorem get?_getD_update? (f : Forest) (id : BlockId) (field : BlockField) (value : FieldValue)
    (id' : BlockId) : ((f.update? id field value).getD f).get? id' = (f.get? id').map fun b =>
      if b.id = id then ⟨b.id, b.kind.withField field value⟩ else b := by
  rcases h : f.update? id field value with _ | g
  · rw [Option.getD_none]
    rcases hb : f.get? id' with _ | b
    · rfl
    · rw [Option.map_some]
      split
      · rename_i hid
        rw [← id_of_get? hb, hid] at hb
        rw [withField_of_update?_eq_none h hb]
      · rfl
  · exact get?_of_update? h id'

/-- The blocks after a removal: those that are not of the family. -/
theorem get?_of_remove? (h : f.remove? id = some g) (id' : BlockId) :
    g.get? id' = if id' ∈ f.family id then none else f.get? id' := by
  obtain ⟨n, -, rfl⟩ := Option.map_eq_some_iff.1 h
  show ((f.withOrder _ _).without (f.family id)).get? id' = _
  rw [← get?_withOrder f n.place ((f.order n.place).filter (· ≠ id)), get?, node?_without]
  split <;> rfl

theorem remove?_eq_none_iff : f.remove? id = none ↔ f.contains id = false := by
  rw [remove?, Option.map_eq_none_iff, contains, Option.isSome_eq_false_iff,
    Option.isNone_iff_eq_none]

theorem contains_of_remove? (h : f.remove? id = some g) : f.contains id = true := by
  by_contra hnot
  rw [remove?_eq_none_iff.2 (eq_false_of_ne_true hnot)] at h
  cases h

theorem exists_get?_of_remove? (h : f.remove? id = some g) : ∃ b, f.get? id = some b := by
  have hc := contains_of_remove? h
  rwa [contains_eq_isSome_get?, Option.isSome_iff_exists] at hc

theorem contains_of_remove?_iff (h : f.remove? id = some g) {id' : BlockId} :
    g.contains id' = true ↔ f.contains id' = true ∧ id' ∉ f.family id := by
  rw [contains_eq_isSome_get?, get?_of_remove? h, contains_eq_isSome_get?]
  split <;> simp [*]

theorem get?_of_reorder? {a o : BlockId} (h : f.reorder? a o = some g) (id' : BlockId) :
    g.get? id' = f.get? id' := by
  obtain ⟨place, -, -, -, -, -, rfl⟩ := reorder?_eq_some_iff.1 h
  exact get?_withOrder f place _ id'

end Forest

end Blockscript
