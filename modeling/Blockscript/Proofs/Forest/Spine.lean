import Blockscript.Proofs.Forest.Nested

/-!
# The spine of an outline

The last entry of an outline, the last entry below that one and so on form its spine. A new last
entry below a block of the spine comes after all others in document order, as deep as that block is
(`Spine.walk_push`), and it ends a spine again (`Spine.push`). A forest that is only added to at the
end of its spine therefore lists its blocks in the order in which they were added.
-/

namespace Blockscript

/-- The place directly under the innermost of some open blocks; the top if there are none. -/
def Place.innermost : List BlockId → Place
  | [] => .top
  | id :: _ => .under id

namespace Outline

/-- Whether blocks, the innermost first, are the outer ones of the spine of an outline. -/
inductive Spine : Outline → List BlockId → Prop
  | top (o : Outline) : Spine o []
  | last (b : Block) {below : Outline} {ids : List BlockId} (h : below.Spine ids) :
    Spine (.cons b below .nil) (ids ++ [b.id])
  | later (b : Block) (below : Outline) {next : Outline} {ids : List BlockId} (h : next.Spine ids)
    (hne : ids ≠ []) : Spine (.cons b below next) ids

variable {o below next : Outline} {ids : List BlockId} {id : BlockId} {b c : Block}

/-! ## Walks -/

theorem walk_append (o o' : Outline) (depth : ℕ) :
    (o.append o').walk depth = o.walk depth ++ o'.walk depth := by
  induction o with
  | nil => rfl
  | cons b below next _ ihNext =>
    rw [append, walk, walk, ihNext, List.cons_append, List.append_assoc]

theorem walk_mapBlock (change : Block → Block) (o : Outline) (depth : ℕ) :
    (o.mapBlock change).walk depth = (o.walk depth).map fun e => (e.1, change e.2) := by
  induction o generalizing depth with
  | nil => rfl
  | cons b below next ihBelow ihNext =>
    rw [mapBlock, walk, walk, ihBelow, ihNext, List.map_cons, List.map_append]

theorem walk_single (b : Block) (below : Outline) (depth : ℕ) :
    (cons b below .nil).walk depth = (depth, b) :: below.walk (depth + 1) := by
  rw [walk, walk, List.append_nil]

/-! ## New entries at the end of the spine -/

theorem Spine.subset_ids (h : o.Spine ids) : ids ⊆ o.ids := by
  induction h with
  | top o => exact List.nil_subset _
  | last b _ ih =>
    refine List.append_subset.2 ⟨fun id hid => ?_, List.cons_subset.2 ⟨?_, List.nil_subset _⟩⟩
    · exact List.mem_cons_of_mem b.id (List.mem_append_left [] (ih hid))
    · exact List.mem_cons_self
  | later b below _ _ ih =>
    exact fun id hid => List.mem_cons_of_mem b.id (List.mem_append_right below.ids (ih hid))

/-- The last entry of an outline whose spine has it grows with all that is below it. -/
theorem Spine.push_last (h : below.Spine ids) (hn : (cons c below .nil).ids.Nodup) (b : Block) :
    (cons c below .nil).push b (.innermost (ids ++ [c.id])) =
      .cons c (below.push b (.innermost ids)) .nil := by
  cases ids with
  | nil => exact congrArg (cons c · nil) (if_pos rfl)
  | cons id ids =>
    have hid : id ∈ below.ids := h.subset_ids List.mem_cons_self
    have hne : c.id ≠ id := fun he => (nodup_cons_iff.1 hn).1.1 (he ▸ hid)
    exact congrArg (cons c · nil) (if_neg hne)

/-- An entry before the last one is left as it is. -/
theorem Spine.push_later (h : next.Spine ids) (hne : ids ≠ [])
    (hn : (cons c below next).ids.Nodup) (b : Block) :
    (cons c below next).push b (.innermost ids) =
      .cons c below (next.push b (.innermost ids)) := by
  cases ids with
  | nil => exact absurd rfl hne
  | cons id ids =>
    obtain ⟨⟨-, hc⟩, -, -, hdisj⟩ := nodup_cons_iff.1 hn
    have hid : id ∈ next.ids := h.subset_ids List.mem_cons_self
    have hbelow : id ∉ below.ids := fun hm => hdisj hm hid
    have hne : c.id ≠ id := fun he => hc (he ▸ hid)
    show (cons c below next).pushBelow id b = _
    rw [pushBelow, if_neg hne, pushBelow_of_not_mem hbelow]
    rfl

/-- **A new last entry** under the innermost of the blocks comes last in document order, as many
levels deep as there are blocks. -/
theorem Spine.walk_push (h : o.Spine ids) (hn : o.ids.Nodup) (b : Block) (depth : ℕ) :
    (o.push b (.innermost ids)).walk depth = o.walk depth ++ [(depth + ids.length, b)] := by
  induction h generalizing depth with
  | top o => exact walk_append o (leaf b) depth
  | last c h ih =>
    obtain ⟨-, hnBelow, -⟩ := nodup_cons_iff.1 hn
    have hdepth : ∀ k, depth + 1 + k = depth + (k + 1) := by omega
    rw [h.push_last hn, walk_single, walk_single, ih hnBelow, hdepth, List.length_append]
    rfl
  | later c below h hne ih =>
    obtain ⟨-, -, hnNext, -⟩ := nodup_cons_iff.1 hn
    rw [h.push_later hne hn, walk, walk, ih hnNext, List.cons_append, List.append_assoc]

/-- **A new last entry** under the innermost of the blocks is the innermost from then on. -/
theorem Spine.push (h : o.Spine ids) (hn : o.ids.Nodup) (b : Block) :
    (o.push b (.innermost ids)).Spine (b.id :: ids) := by
  induction h with
  | top o =>
    show (o.append (leaf b)).Spine [b.id]
    clear hn
    induction o with
    | nil => exact .last b (.top .nil)
    | cons c below next _ ihNext => exact .later c below ihNext (List.cons_ne_nil b.id [])
  | last c h ih =>
    obtain ⟨-, hnBelow, -⟩ := nodup_cons_iff.1 hn
    rw [h.push_last hn]
    exact .last c (ih hnBelow)
  | later c below h hne ih =>
    obtain ⟨-, -, hnNext, -⟩ := nodup_cons_iff.1 hn
    rw [h.push_later hne hn]
    exact .later c below (ih hnNext) (List.cons_ne_nil b.id _)

/-- The innermost block may be left out. -/
theorem Spine.tail (h : o.Spine ids) : o.Spine ids.tail := by
  induction h with
  | top o => exact .top o
  | @last b below ids h ih =>
    cases ids with
    | nil => exact .top _
    | cons id ids => exact .last b ih
  | @later b below next ids h hne ih =>
    cases ids with
    | nil => exact .top _
    | cons id ids =>
      by_cases hnil : ids = []
      · exact hnil ▸ .top _
      · exact .later b below ih hnil

end Outline

namespace Forest.Represents

variable {f g : Forest} {o : Outline}

/-- A block that is added is pushed. -/
theorem push_of_add? (h : f.Represents o) {place : Place} {b : Block}
    (hg : f.add? place b = some g) : g.Represents (o.push b place) := by
  obtain ⟨l, hl, hr⟩ := h.add hg
  rwa [Outline.withLevel_append_leaf h.nodup hl] at hr

end Forest.Represents

end Blockscript
