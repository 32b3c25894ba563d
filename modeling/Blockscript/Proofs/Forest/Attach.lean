import Blockscript.Proofs.Forest.Edits

/-!
# Forests made of outlines

Attaching an outline with fresh identifiers adds all of it behind the last block of a level
(`Represents.attach`), so that a forest made of an outline represents that outline
(`represents_ofOutline`). `Forest.Built` are the forests that outlines and edits lead to, and each
of them represents an outline.
-/

namespace Blockscript

namespace Outline

variable {o l : Outline} {place : Place} {id : BlockId}

/-! ## Levels that grow -/

theorem below?_append (hid : id ∉ o.ids) (o' : Outline) :
    (o.append o').below? id = o'.below? id := by
  induction o with
  | nil => rfl
  | cons b below next _ ihNext =>
    rw [ids, List.mem_cons, List.mem_append, not_or, not_or] at hid
    rw [append, below?, if_neg (Ne.symm hid.1), below?_eq_none hid.2.1, ihNext hid.2.2,
      Option.none_or]

theorem withBelow_append (hid : id ∉ o.ids) (o' m : Outline) :
    (o.append o').withBelow id m = o.append (o'.withBelow id m) := by
  induction o with
  | nil => rfl
  | cons b below next _ ihNext =>
    rw [ids, List.mem_cons, List.mem_append, not_or, not_or] at hid
    rw [append, append, withBelow, if_neg (Ne.symm hid.1), withBelow_of_not_mem hid.2.1,
      ihNext hid.2.2]

/-- A level that was put at a place stands there. -/
theorem level?_withLevel (h : o.level? place = some l) (l' : Outline) :
    (o.withLevel l' place).level? place = some l' := by
  cases place with
  | top => rfl
  | under id =>
    show (o.withBelow id l').below? id = some l'
    induction o with
    | nil => cases h
    | cons b below next ihBelow ihNext =>
      rcases below?_cons_cases h with ⟨hb, -⟩ | ⟨hb, h⟩ | ⟨hb, hid, h⟩
      · rw [withBelow, if_pos hb, below?, if_pos hb]
      · rw [withBelow, if_neg hb, below?, if_neg hb, ihBelow h, Option.some_or]
      · rw [withBelow, if_neg hb, below?, if_neg hb, withBelow_of_not_mem hid, below?_eq_none hid,
          ihNext h, Option.none_or]

theorem withLevel_self (hn : o.ids.Nodup) (h : o.level? place = some l) :
    o.withLevel l place = o := by
  cases place with
  | top => exact (Option.some.inj h).symm
  | under id =>
    show o.withBelow id l = o
    induction o with
    | nil => rfl
    | cons b below next ihBelow ihNext =>
      obtain ⟨-, hnBelow, hnNext, hdisj⟩ := nodup_cons_iff.1 hn
      rcases below?_cons_cases h with ⟨hb, rfl⟩ | ⟨hb, h⟩ | ⟨hb, hid, h⟩
      · rw [withBelow, if_pos hb]
      · rw [withBelow, if_neg hb, ihBelow hnBelow h,
          withBelow_of_not_mem (hdisj (mem_ids_of_below? h))]
      · rw [withBelow, if_neg hb, withBelow_of_not_mem hid, ihNext hnNext h]

theorem withLevel_withLevel (o l l' : Outline) (place : Place) :
    (o.withLevel l place).withLevel l' place = o.withLevel l' place := by
  cases place with
  | top => rfl
  | under id =>
    show (o.withBelow id l).withBelow id l' = o.withBelow id l'
    induction o with
    | nil => rfl
    | cons b below next ihBelow ihNext =>
      by_cases hb : b.id = id
      · rw [withBelow, withBelow, if_pos hb, if_pos hb, withBelow, if_pos hb]
      · rw [withBelow, withBelow, if_neg hb, if_neg hb, withBelow, if_neg hb, ihBelow, ihNext]

/-- What a level has grown by is found below its blocks. -/
theorem below?_withLevel_append (hn : o.ids.Nodup) (hid : id ∉ o.ids)
    (h : o.level? place = some l) (o' : Outline) :
    (o.withLevel (l.append o') place).below? id = o'.below? id := by
  cases place with
  | top =>
    obtain rfl := Option.some.inj h
    exact below?_append hid o'
  | under owner =>
    show (o.withBelow owner (l.append o')).below? id = o'.below? id
    induction o with
    | nil => cases h
    | cons b below next ihBelow ihNext =>
      obtain ⟨-, hnBelow, hnNext, hdisj⟩ := nodup_cons_iff.1 hn
      rw [ids, List.mem_cons, List.mem_append, not_or, not_or] at hid
      obtain ⟨hb', hidBelow, hidNext⟩ := hid
      rcases below?_cons_cases h with ⟨hb, rfl⟩ | ⟨hb, h⟩ | ⟨hb, howner, h⟩
      · rw [withBelow, if_pos hb, below?, if_neg (Ne.symm hb'), below?_append hidBelow,
          below?_eq_none hidNext, Option.or_none]
      · rw [withBelow, if_neg hb, below?, if_neg (Ne.symm hb'), ihBelow hnBelow hidBelow h,
          withBelow_of_not_mem (hdisj (mem_ids_of_below? h)), below?_eq_none hidNext,
          Option.or_none]
      · rw [withBelow, if_neg hb, below?, if_neg (Ne.symm hb'), withBelow_of_not_mem howner,
          below?_eq_none hidBelow, ihNext hnNext hidNext h, Option.none_or]

theorem withBelow_withLevel_append (hn : o.ids.Nodup) (hid : id ∉ o.ids)
    (h : o.level? place = some l) (o' m : Outline) :
    (o.withLevel (l.append o') place).withBelow id m =
      o.withLevel (l.append (o'.withBelow id m)) place := by
  cases place with
  | top =>
    obtain rfl := Option.some.inj h
    exact withBelow_append hid o' m
  | under owner =>
    show (o.withBelow owner (l.append o')).withBelow id m =
      o.withBelow owner (l.append (o'.withBelow id m))
    induction o with
    | nil => cases h
    | cons b below next ihBelow ihNext =>
      obtain ⟨-, hnBelow, hnNext, hdisj⟩ := nodup_cons_iff.1 hn
      rw [ids, List.mem_cons, List.mem_append, not_or, not_or] at hid
      obtain ⟨hb', hidBelow, hidNext⟩ := hid
      rcases below?_cons_cases h with ⟨hb, rfl⟩ | ⟨hb, h⟩ | ⟨hb, howner, h⟩
      · rw [withBelow, if_pos hb, withBelow, if_neg (Ne.symm hb'), withBelow_append hidBelow,
          withBelow_of_not_mem hidNext, withBelow, if_pos hb]
      · rw [withBelow, if_neg hb, withBelow, if_neg (Ne.symm hb'), ihBelow hnBelow hidBelow h,
          withBelow_of_not_mem (hdisj (mem_ids_of_below? h)), withBelow_of_not_mem hidNext,
          withBelow, if_neg hb, withBelow_of_not_mem (hdisj (mem_ids_of_below? h))]
      · rw [withBelow, if_neg hb, withBelow, if_neg (Ne.symm hb'), withBelow_of_not_mem howner,
          withBelow_of_not_mem hidBelow, ihNext hnNext hidNext h, withBelow, if_neg hb,
          withBelow_of_not_mem howner]

end Outline

namespace Forest

/-! ## Blocks after an addition -/

theorem get?_withOrder (f : Forest) (place : Place) (ids : List BlockId) (id : BlockId) :
    (f.withOrder place ids).get? id = f.get? id := by
  have hcomp : (fun n : Node => decide (n.block.id = id)) ∘ Node.relisted place ids =
      fun n : Node => decide (n.block.id = id) :=
    funext fun n => by rw [Function.comp_apply, Node.block_relisted]
  rw [get?, get?, node?, nodes_withOrder, List.find?_map, hcomp, Option.map_map]
  exact congrArg (Option.map · _) (funext fun n => n.block_relisted place ids)

/-- The blocks after an addition are those before it and the new one. -/
theorem get?_of_add? {f g : Forest} {place : Place} {b : Block} (h : f.add? place b = some g)
    (id : BlockId) : g.get? id = if b.id = id then some b else f.get? id := by
  obtain ⟨-, -, rfl⟩ := add?_eq_some_iff.1 h
  rw [get?, node?, List.find?_cons]
  by_cases hid : b.id = id
  · simp [hid]
  · simp only [hid, decide_false, if_false]
    exact get?_withOrder f place _ id

theorem get?_eq_none_iff {f : Forest} {id : BlockId} :
    f.get? id = none ↔ f.contains id = false := by
  rw [contains_eq_isSome_get?, Option.isSome_eq_false_iff, Option.isNone_iff_eq_none]

theorem map_eq_self_of_ne {ns : List Node} {id : BlockId} (h : ∀ n ∈ ns, n.block.id ≠ id)
    {change : Node → Node} : (ns.map fun n => if n.block.id = id then change n else n) = ns :=
  (List.map_congr_left fun n hn => if_neg (h n hn)).trans (List.map_id ns)

/-- A change of a block that was just added is the addition of the changed block. -/
theorem update?_of_add? {f g : Forest} {place : Place} {id : BlockId} {kind kind' : BlockKind}
    {field : BlockField} {value : FieldValue} (hg : f.add? place ⟨id, kind⟩ = some g)
    (hk : kind.update? field value = some kind') :
    g.update? id field value = f.add? place ⟨id, kind'⟩ := by
  obtain ⟨hfresh, hadmits, rfl⟩ := add?_eq_some_iff.1 hg
  have htag : kind'.tag = kind.tag := by
    rw [(BlockKind.eq_withField_of_update? hk).1, BlockKind.tag_withField]
  have hadmits' : f.admits (Block.tag ⟨id, kind'⟩) place = true := by
    rw [Block.tag, htag]
    exact hadmits
  have hold : ∀ n ∈ (f.withOrder place (f.order place ++ [id])).nodes, n.block.id ≠ id := by
    rw [nodes_withOrder, List.forall_mem_map]
    intro n hn he
    rw [Node.block_relisted] at he
    have hnone : f.node? id = none :=
      Option.isNone_iff_eq_none.1 (Option.isSome_eq_false_iff.1 hfresh)
    exact List.find?_eq_none.1 hnone n hn (decide_eq_true he)
  have hg' : f.add? place ⟨id, kind'⟩ = some _ := add?_eq_some_iff.2 ⟨hfresh, hadmits', rfl⟩
  rw [hg']
  refine update?_eq_some_iff.2 ⟨_, kind', List.find?_cons_of_pos (decide_eq_true rfl), hk, ?_⟩
  rw [mapNode, List.map_cons, if_pos rfl, map_eq_self_of_ne hold]

theorem role_of_add? {f g : Forest} {place : Place} {b : Block} (h : f.add? place b = some g) :
    g.role = f.role := role_of_edit? (e := .add place b) h

/-- What may stand at a place may stand there after an addition. -/
theorem admits_of_add? {f g : Forest} {place : Place} {b : Block} (h : f.add? place b = some g)
    {tag : BlockTag} {place' : Place} (ha : f.admits tag place' = true) :
    g.admits tag place' = true := by
  cases place' with
  | top => rwa [admits_top, role_of_add? h, ← admits_top]
  | under id =>
    obtain ⟨hrole, htakes, c, hc, hcont⟩ := admits_under_iff.1 ha
    have hne : b.id ≠ id := by
      intro he
      rw [← he, get?_eq_none_iff.2 (add?_eq_some_iff.1 h).1] at hc
      cases hc
    refine admits_under_iff.2 ⟨(role_of_add? h).trans hrole, (role_of_add? h).symm ▸ htakes, c, ?_,
      hcont⟩
    rw [get?_of_add? h, if_neg hne, hc]

/-! ## Attaching -/

theorem role_attach (f : Forest) (place : Place) (o : Outline) :
    (f.attach place o).role = f.role := by
  induction o generalizing f place with
  | nil => rfl
  | cons b below next ihBelow ihNext =>
    rw [attach]
    split
    · exact ihNext f place
    · rename_i g hg
      rw [ihNext, ihBelow, role_of_add? hg]

theorem get?_attach {f : Forest} {place : Place} {o : Outline} {id : BlockId} (h : id ∉ o.ids) :
    (f.attach place o).get? id = f.get? id := by
  induction o generalizing f place with
  | nil => rfl
  | cons b below next ihBelow ihNext =>
    rw [Outline.ids, List.mem_cons, List.mem_append, not_or, not_or] at h
    rw [attach]
    split
    · exact ihNext h.2.2
    · rename_i g hg
      rw [ihNext h.2.2, ihBelow h.2.1, get?_of_add? hg, if_neg (Ne.symm h.1)]

theorem admits_attach {f : Forest} {place place' : Place} (o : Outline) {tag : BlockTag}
    (h : f.admits tag place' = true) : (f.attach place o).admits tag place' = true := by
  induction o generalizing f place with
  | nil => exact h
  | cons b below next ihBelow ihNext =>
    rw [attach]
    split
    · exact ihNext h
    · rename_i g hg
      exact ihNext (ihBelow (admits_of_add? hg h))

theorem attach_append (f : Forest) (place : Place) (o o' : Outline) :
    f.attach place (o.append o') = (f.attach place o).attach place o' := by
  induction o generalizing f with
  | nil => rfl
  | cons b below next _ ihNext =>
    rw [Outline.append, attach, attach]
    split
    · exact ihNext f
    · exact ihNext _

theorem attach_leaf {f g : Forest} {place : Place} {b : Block} (h : f.add? place b = some g) :
    f.attach place (.leaf b) = g := by
  rw [Outline.leaf, attach, h]
  rfl

/-- **Attaching** an outline with fresh identifiers, all of whose nodes fit, adds it behind the last
block of a level. -/
theorem Represents.attach {f : Forest} {u l o : Outline} {place : Place} (h : f.Represents u)
    (hl : u.level? place = some l) (hn : o.ids.Nodup) (hnew : ∀ id ∈ o.ids, f.get? id = none)
    (hfits : ∀ n ∈ o.nodes place, f.role.Fits n)
    (hplace : o ≠ .nil → ∀ tag, f.role.takes tag = true → f.admits tag place = true) :
    (f.attach place o).Represents (u.withLevel (l.append o) place) := by
  induction o generalizing f u l place with
  | nil => rwa [Outline.append_nil, Outline.withLevel_self h.nodup hl]
  | cons b below next ihBelow ihNext =>
    obtain ⟨⟨hbBelow, hbNext⟩, hnBelow, hnNext, hdisj⟩ := Outline.nodup_cons_iff.1 hn
    rw [Outline.ids, List.forall_mem_cons, List.forall_mem_append] at hnew
    obtain ⟨hb, hnewBelow, hnewNext⟩ := hnew
    rw [Outline.nodes, List.forall_mem_cons, List.forall_mem_append] at hfits
    obtain ⟨hbfits, hfitsBelow, hfitsNext⟩ := hfits
    have hadmits := hplace Outline.noConfusion
    have hid : b.id ∉ u.ids := by
      rw [← h.contains_iff, get?_eq_none_iff.1 hb]
      exact Bool.false_ne_true
    obtain ⟨g, hg⟩ : ∃ g, f.add? place b = some g :=
      ⟨_, add?_eq_some_iff.2 ⟨get?_eq_none_iff.1 hb, hadmits b.tag hbfits.takes, rfl⟩⟩
    have hrole := role_of_add? hg
    obtain ⟨l', hl', hrep⟩ := h.add hg
    obtain rfl : l = l' := Option.some.inj (hl.symm.trans hl')
    -- The entries below the new block, which has none yet.
    have hlevel : (u.withLevel (l.append (.leaf b)) place).level? (.under b.id) = some .nil := by
      rw [Outline.level?, Outline.below?_withLevel_append h.nodup hid hl, Outline.leaf,
        Outline.below?, if_pos rfl]
    have hrepBelow := ihBelow hrep hlevel hnBelow (fun id hm => ?_) (hrole ▸ hfitsBelow)
      (fun hne tag htag => ?_)
    · have hlater : (g.attach (.under b.id) below).Represents
          (u.withLevel (l.append (.cons b below .nil)) place) := by
        have hset := Outline.withBelow_withLevel_append h.nodup hid hl (.leaf b) below
        rw [Outline.leaf, Outline.withBelow, if_pos rfl] at hset
        exact hset ▸ hrepBelow
      have hrole' : (g.attach (.under b.id) below).role = f.role := (role_attach _ _ _).trans hrole
      have hrepNext := ihNext hlater (Outline.level?_withLevel hl _) hnNext (fun id hm => ?_)
        (hrole' ▸ hfitsNext) (fun _ tag htag => ?_)
      · rw [Outline.withLevel_withLevel, Outline.append_assoc] at hrepNext
        rw [Forest.attach, hg]
        exact hrepNext
      · have hne : b.id ≠ id := fun he => hbNext (he ▸ hm)
        rw [get?_attach fun hm' => hdisj hm' hm, get?_of_add? hg, if_neg hne, hnewNext id hm]
      · exact admits_attach below (admits_of_add? hg (hadmits tag (hrole' ▸ htag)))
    · have hne : b.id ≠ id := fun he => hbBelow (he ▸ hm)
      rw [get?_of_add? hg, if_neg hne, hnewBelow id hm]
    · have hcontainer := hbfits.below fun ht => hne (Outline.eq_nil_of_tops ht)
      refine admits_under_iff.2 ⟨?_, htag, b, ?_, hcontainer⟩
      · exact hrole.trans (ForestRole.eq_statements_of_takes hbfits.takes hcontainer)
      · rw [get?_of_add? hg, if_pos rfl]

/-! ## Forests of outlines -/

theorem represents_empty (role : ForestRole) : (empty role).Represents .nil :=
  ⟨rfl, .refl _, List.nodup_nil, fun _ hn => absurd hn List.not_mem_nil⟩

/-- **The forest of an outline** represents it, if no identifier is used twice and all nodes fit. -/
theorem represents_ofOutline {role : ForestRole} {o : Outline} (hn : o.ids.Nodup)
    (hfits : ∀ n ∈ o.nodes .top, role.Fits n) : (ofOutline role o).Represents o :=
  (represents_empty role).attach (l := .nil) (o := o) rfl hn (fun _ _ => rfl) hfits
    fun _ tag htag =>
    (admits_top _ tag).trans htag

/-! ## Built forests -/

/-- The forests of a role that outlines and edits lead to. -/
inductive Built (role : ForestRole) : Forest → Prop
  | empty : Built role (empty role)
  | ofOutline (o : Outline) : Built role (ofOutline role o)
  | edit {f g : Forest} {e : Edit} (h : Built role f) (hg : f.edit? e = some g) : Built role g

namespace Built

variable {role : ForestRole} {f : Forest}

theorem role_eq (h : Built role f) : f.role = role := by
  induction h with
  | empty => rfl
  | ofOutline o => exact role_attach _ .top o
  | edit _ hg ih => exact (role_of_edit? hg).trans ih

theorem add?_getD (h : Built role f) (place : Place) (b : Block) :
    Built role ((f.add? place b).getD f) := by
  rcases hg : f.add? place b with _ | g
  · exact h
  · exact h.edit (e := .add place b) hg

theorem update?_getD (h : Built role f) (id : BlockId) (field : BlockField) (value : FieldValue) :
    Built role ((f.update? id field value).getD f) := by
  rcases hg : f.update? id field value with _ | g
  · exact h
  · exact h.edit (e := .update id field value) hg

theorem exists_represents_attach {u : Outline} (h : f.Represents u) (place : Place) (o : Outline) :
    ∃ u', (f.attach place o).Represents u' := by
  induction o generalizing f u place with
  | nil => exact ⟨u, h⟩
  | cons b below next ihBelow ihNext =>
    rw [attach]
    split
    · exact ihNext h place
    · rename_i g hg
      obtain ⟨_, -, hrep⟩ := h.add hg
      obtain ⟨_, hrep⟩ := ihBelow hrep (.under b.id)
      exact ihNext hrep place

/-- **Every built forest** represents an outline. -/
theorem exists_represents (h : Built role f) : ∃ o, f.Represents o := by
  induction h with
  | empty => exact ⟨.nil, represents_empty role⟩
  | ofOutline o => exact exists_represents_attach (represents_empty role) .top o
  | edit _ hg ih =>
    obtain ⟨o, ho⟩ := ih
    exact ho.edit hg

/-- A built forest represents its nested form. -/
theorem represents (h : Built role f) : f.Represents f.outline := by
  obtain ⟨o, ho⟩ := h.exists_represents
  rwa [ho.outline_eq]

end Built

end Forest

end Blockscript
