import Blockscript.Proofs.Forest.Blocks
import Blockscript.Proofs.Forest.WellFormed

/-!
# Edits of the nested form

A forest edits one flat list of nodes; `Outline.added`, `Outline.updated` and `Outline.removed` say
what that comes to in the nested form, by recursion on the outline and without regard to nodes. The
main statement is that the two agree for every forest, whatever it was made from and edited by
(`outline_edited`): taking the nested form and editing commute.
-/

namespace Blockscript

namespace Outline

/-! ## Edits -/

/-- The block of that identifier, at any depth. -/
def find? (id : BlockId) : Outline → Option Block
  | .nil => none
  | .cons b below next => if b.id = id then some b else (below.find? id).or (next.find? id)

/-- Whether an outline of that role may have an entry of a kind at a place: of the role's kinds, and
at the top or, for statements, below a loop. -/
def admits (o : Outline) (role : ForestRole) (tag : BlockTag) : Place → Bool
  | .top => role.takes tag
  | .under id => role == .statements && role.takes tag && (o.find? id).any (·.isContainer)

/-- The outline with a new last entry below a block, which has none below it. -/
def pushBelow (id : BlockId) (b : Block) : Outline → Outline
  | .nil => .nil
  | .cons c below next =>
    .cons c (if c.id = id then below.append (.leaf b) else below.pushBelow id b)
      (next.pushBelow id b)

/-- The outline with a new last entry at a place, which has none below it. -/
def push (o : Outline) (b : Block) : Place → Outline
  | .top => o.append (.leaf b)
  | .under id => o.pushBelow id b

/-- The outline with a new last entry at a place, if there is no block of its identifier yet and its
kind may stand there. -/
def added (o : Outline) (role : ForestRole) (place : Place) (b : Block) : Outline :=
  if b.id ∉ o.ids ∧ o.admits role b.tag place = true then o.push b place else o

/-- The outline with its blocks changed one by one. -/
def mapBlock (change : Block → Block) : Outline → Outline
  | .nil => .nil
  | .cons b below next => .cons (change b) (below.mapBlock change) (next.mapBlock change)

/-- The outline with one field of a block replaced. -/
def updated (o : Outline) (id : BlockId) (field : BlockField) (value : FieldValue) : Outline :=
  o.mapBlock fun b => if b.id = id then { b with kind := b.kind.withField field value } else b

/-- The outline without the entry of a block and all that is below it. -/
def removed (id : BlockId) : Outline → Outline
  | .nil => .nil
  | .cons b below next =>
    if b.id = id then next.removed id else .cons b (below.removed id) (next.removed id)

variable {o l : Outline} {place : Place} {id : BlockId} {b : Block}

/-! ## Finding blocks -/

theorem find?_eq_none_iff : o.find? id = none ↔ id ∉ o.ids := by
  induction o with
  | nil => simp [find?, ids]
  | cons c below next ihBelow ihNext =>
    rw [find?, ids, List.mem_cons, List.mem_append, not_or, not_or]
    by_cases hc : c.id = id
    · simp [hc]
    · rw [if_neg hc, Option.or_eq_none_iff, ihBelow, ihNext]
      simp [Ne.symm hc]

theorem get?_of_find? {f : Forest} (h : f.Holds place o) (hb : o.find? id = some b) :
    f.get? id = some b := by
  induction o generalizing place with
  | nil => cases hb
  | cons c below next ihBelow ihNext =>
    obtain ⟨hc, hbelow, hnext⟩ := Forest.holds_cons.1 h
    rw [find?] at hb
    split at hb
    · rename_i hid
      rw [← hid, Forest.get?, hc, ← hb]
      rfl
    · rcases Option.or_eq_some_iff.1 hb with hb | ⟨-, hb⟩
      · exact ihBelow hbelow hb
      · exact ihNext hnext hb

/-! ## Adding -/

theorem pushBelow_of_not_mem (h : id ∉ o.ids) (b : Block) : o.pushBelow id b = o := by
  induction o with
  | nil => rfl
  | cons c below next ihBelow ihNext =>
    rw [ids, List.mem_cons, List.mem_append, not_or, not_or] at h
    rw [pushBelow, if_neg (Ne.symm h.1), ihBelow h.2.1, ihNext h.2.2]

/-- A level that grows by a last entry is all that a new entry changes. -/
theorem withLevel_append_leaf (hn : o.ids.Nodup) (h : o.level? place = some l) (b : Block) :
    o.withLevel (l.append (.leaf b)) place = o.push b place := by
  cases place with
  | top =>
    obtain rfl := Option.some.inj h
    rfl
  | under id =>
    show o.withBelow id (l.append (.leaf b)) = o.pushBelow id b
    induction o with
    | nil => rfl
    | cons c below next ihBelow ihNext =>
      obtain ⟨⟨-, hc⟩, hnBelow, hnNext, hdisj⟩ := nodup_cons_iff.1 hn
      rw [withBelow, pushBelow]
      rcases below?_cons_cases h with ⟨rfl, rfl⟩ | ⟨hid, h⟩ | ⟨hid, hbelow, h⟩
      · rw [if_pos rfl, if_pos rfl, pushBelow_of_not_mem hc]
      · have hnext : id ∉ next.ids := hdisj (mem_ids_of_below? h)
        rw [if_neg hid, if_neg hid, ihBelow hnBelow h, withBelow_of_not_mem hnext,
          pushBelow_of_not_mem hnext]
      · rw [if_neg hid, if_neg hid, withBelow_of_not_mem hbelow, pushBelow_of_not_mem hbelow,
          ihNext hnNext h]

/-! ## Replacing a field -/

theorem mapBlock_congr (place : Place) {change change' : Block → Block}
    (h : ∀ n ∈ o.nodes place, change n.block = change' n.block) :
    o.mapBlock change = o.mapBlock change' := by
  induction o generalizing place with
  | nil => rfl
  | cons c below next ihBelow ihNext =>
    rw [nodes, List.forall_mem_cons, List.forall_mem_append] at h
    obtain ⟨hc, hbelow, hnext⟩ := h
    rw [mapBlock, mapBlock, ihBelow _ hbelow, ihNext _ hnext]
    exact congrArg (Outline.cons · _ _) hc

theorem mapBlock_self (o : Outline) : (o.mapBlock fun b => b) = o := by
  induction o with
  | nil => rfl
  | cons c below next ihBelow ihNext => rw [mapBlock, ihBelow, ihNext]

theorem withKind_eq_mapBlock (id : BlockId) (kind : BlockKind) (o : Outline) :
    o.withKind id kind = o.mapBlock fun b => if b.id = id then { b with kind } else b := by
  induction o with
  | nil => rfl
  | cons c below next ihBelow ihNext => rw [withKind, mapBlock, ihBelow, ihNext]

/-! ## Removing -/

theorem removed_of_not_mem (h : id ∉ o.ids) : o.removed id = o := by
  induction o with
  | nil => rfl
  | cons c below next ihBelow ihNext =>
    rw [ids, List.mem_cons, List.mem_append, not_or, not_or] at h
    rw [removed, if_neg (Ne.symm h.1), ihBelow h.2.1, ihNext h.2.2]

theorem without_eq_removed (hn : o.ids.Nodup) (h : id ∈ o.tops) : o.without id = o.removed id := by
  induction o with
  | nil => rfl
  | cons c below next _ ihNext =>
    obtain ⟨⟨-, hc⟩, -, hnNext, hdisj⟩ := nodup_cons_iff.1 hn
    rw [without, removed]
    by_cases hid : c.id = id
    · rw [if_pos hid, if_pos hid, removed_of_not_mem (hid ▸ hc)]
    · have htop : id ∈ next.tops := (List.mem_cons.1 h).resolve_left (Ne.symm hid)
      have hbelow : id ∉ below.ids := fun hm => hdisj hm (next.tops_sublist_ids.subset htop)
      rw [if_neg hid, if_neg hid, ihNext hnNext htop, removed_of_not_mem hbelow]

/-- A level that loses an entry is all that a removal changes. -/
theorem withLevel_without (hn : o.ids.Nodup) (h : o.level? place = some l) (hid : id ∈ l.tops) :
    o.withLevel (l.without id) place = o.removed id := by
  have hnl : l.ids.Nodup := hn.sublist (ids_sublist_of_level? h)
  rw [without_eq_removed hnl hid]
  cases place with
  | top =>
    obtain rfl := Option.some.inj h
    rfl
  | under owner =>
    show o.withBelow owner (l.removed id) = o.removed id
    have hmem := l.tops_sublist_ids.subset hid
    induction o with
    | nil => rfl
    | cons c below next ihBelow ihNext =>
      obtain ⟨⟨hcBelow, hcNext⟩, hnBelow, hnNext, hdisj⟩ := nodup_cons_iff.1 hn
      rw [withBelow, removed]
      -- The block is below the owner, so it is no owner itself and stands in one part only.
      rcases below?_cons_cases h with ⟨rfl, rfl⟩ | ⟨howner, h⟩ | ⟨howner, hno, h⟩
      · have hne : c.id ≠ id := fun he => hcBelow (he ▸ hmem)
        rw [if_pos rfl, if_neg hne, removed_of_not_mem (hdisj hmem)]
      · have hm : id ∈ below.ids := (ids_sublist_of_below? h).subset hmem
        have hne : c.id ≠ id := fun he => hcBelow (he ▸ hm)
        rw [if_neg howner, if_neg hne, ihBelow hnBelow h, removed_of_not_mem (hdisj hm),
          withBelow_of_not_mem (hdisj (mem_ids_of_below? h))]
      · have hm : id ∈ next.ids := (ids_sublist_of_below? h).subset hmem
        have hne : c.id ≠ id := fun he => hcNext (he ▸ hm)
        have hbelow : id ∉ below.ids := fun hm' => hdisj hm' hm
        rw [if_neg howner, if_neg hne, ihNext hnNext h, removed_of_not_mem hbelow,
          withBelow_of_not_mem hno]

end Outline

/-! ## Represented forests -/

namespace Forest

variable {f g : Forest} {o : Outline}

theorem edited_of_some {e : Edit} (h : f.edit? e = some g) : f.edited e = g := by
  rw [edited, h, Option.getD_some]

theorem edited_of_none {e : Edit} (h : f.edit? e = none) : f.edited e = f := by
  rw [edited, h, Option.getD_none]

namespace Represents

/-- The blocks of a forest are those of the outline. -/
theorem get?_eq_find? (h : f.Represents o) (id : BlockId) : f.get? id = o.find? id := by
  rcases hb : o.find? id with _ | b
  · rw [get?_eq_none_iff, ← Bool.not_eq_true, h.contains_iff]
    exact Outline.find?_eq_none_iff.1 hb
  · exact Outline.get?_of_find? h.holds hb

theorem admits_eq (h : f.Represents o) (tag : BlockTag) (place : Place) :
    f.admits tag place = o.admits f.role tag place := by
  cases place with
  | top => exact admits_top f tag
  | under id =>
    simp only [Forest.admits, Outline.admits, h.get?_eq_find?]
    cases f.role <;> rfl

theorem exists_add?_iff (h : f.Represents o) (place : Place) (b : Block) :
    (∃ g, f.add? place b = some g) ↔ b.id ∉ o.ids ∧ o.admits f.role b.tag place = true := by
  rw [← h.contains_iff, Bool.not_eq_true, ← h.admits_eq]
  constructor
  · rintro ⟨g, hg⟩
    obtain ⟨hnew, hadmits, -⟩ := add?_eq_some_iff.1 hg
    exact ⟨hnew, hadmits⟩
  · rintro ⟨hnew, hadmits⟩
    exact ⟨_, add?_eq_some_iff.2 ⟨hnew, hadmits, rfl⟩⟩

theorem edited_add (h : f.Represents o) (place : Place) (b : Block) :
    (f.edited (.add place b)).Represents (o.added f.role place b) := by
  have hiff := h.exists_add?_iff place b
  unfold Outline.added
  rcases hg : f.add? place b with _ | g
  · have hno : ¬ (b.id ∉ o.ids ∧ o.admits f.role b.tag place = true) := by
      rw [← hiff, hg]
      simp
    rw [edited_of_none (e := .add place b) hg, if_neg hno]
    exact h
  · obtain ⟨l, hl, hr⟩ := h.add hg
    rw [edited_of_some (e := .add place b) hg, if_pos (hiff.1 ⟨g, hg⟩),
      ← Outline.withLevel_append_leaf h.nodup hl]
    exact hr

theorem edited_update (h : f.Represents o) (id : BlockId) (field : BlockField)
    (value : FieldValue) :
    (f.edited (.update id field value)).Represents (o.updated id field value) := by
  have hfind : ∀ n ∈ o.nodes .top, n.block.id = id → f.get? id = some n.block := by
    rintro n hn rfl
    exact h.get?_of_mem (h.nodes.symm.subset hn)
  rcases hg : f.update? id field value with _ | g
  · have hsame : o.updated id field value = o.mapBlock fun b => b := by
      refine Outline.mapBlock_congr .top fun n hn => ?_
      split
      · rename_i hid
        rw [withField_of_update?_eq_none hg (hfind n hn hid)]
      · rfl
    rw [edited_of_none (e := .update id field value) hg, hsame, Outline.mapBlock_self]
    exact h
  · obtain ⟨n, kind, hnode, hk, hr⟩ := h.update hg
    have hsame : o.updated id field value = o.withKind id kind := by
      rw [Outline.withKind_eq_mapBlock]
      refine Outline.mapBlock_congr .top fun m hm => ?_
      split
      · rename_i hid
        have hmn := hfind m hm hid
        rw [get?, hnode, Option.map_some, Option.some.injEq] at hmn
        rw [← hmn, (BlockKind.eq_withField_of_update? hk).1]
      · rfl
    rw [edited_of_some (e := .update id field value) hg, hsame]
    exact hr

theorem edited_remove (h : f.Represents o) (id : BlockId) :
    (f.edited (.remove id)).Represents (o.removed id) := by
  rcases hg : f.remove? id with _ | g
  · have hid : id ∉ o.ids := by
      rw [← h.contains_iff, remove?_eq_none_iff.1 hg]
      exact Bool.false_ne_true
    rw [edited_of_none (e := .remove id) hg, Outline.removed_of_not_mem hid]
    exact h
  · obtain ⟨n, l, -, hl, hid, hr⟩ := h.remove hg
    rw [edited_of_some (e := .remove id) hg, ← Outline.withLevel_without h.nodup hl hid]
    exact hr

end Represents

end Forest

/-- **Editing and nesting commute.** In any forest no identifier is used twice, and its nested form
after an addition, a replacement or a removal is the nested form before, with an entry added at the
place, a field of the one entry replaced, or the one entry removed with all that is below it. -/
theorem Forest.outline_edited (origin : Origin) (es : List Edit) :
    (origin.forest.editAll es).outline.ids.Nodup ∧
      (∀ place b, ((origin.forest.editAll es).edited (.add place b)).outline =
        (origin.forest.editAll es).outline.added origin.role place b) ∧
      (∀ id field value, ((origin.forest.editAll es).edited (.update id field value)).outline =
        (origin.forest.editAll es).outline.updated id field value) ∧
      ∀ id, ((origin.forest.editAll es).edited (.remove id)).outline =
        (origin.forest.editAll es).outline.removed id := by
  have hbuilt := origin.built.editAll es
  have h := hbuilt.represents
  refine ⟨h.nodup, fun place b => ?_, fun id field value => ?_, fun id => ?_⟩
  · rw [(h.edited_add place b).outline_eq, hbuilt.role_eq]
  · exact (h.edited_update id field value).outline_eq
  · exact (h.edited_remove id).outline_eq

end Blockscript
