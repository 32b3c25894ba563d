import Blockscript.Proofs.Forest.Spine

/-!
# Outlines with one entry replaced

`Outline.render` is whatever is written for an outline entry by entry, in document order: something
in front of the entries below a block and something behind them. Replacing one entry of the outline
replaces one stretch of it (`exists_render_replaced`), and every edit but a new entry at the top
replaces one entry (`eq_replaced`). So an edit changes what is written at one position only,
whatever it is that is written: `spliced_updated`, `spliced_push` and `spliced_removed`.
-/

namespace Blockscript

/-! ## Lists that differ at one position -/

/-- Whether two lists are the same but for `x` in the one where the other one has `x'`. -/
def Spliced {α : Type} (l l' x x' : List α) : Prop :=
  ∃ front back, l = front ++ x ++ back ∧ l' = front ++ x' ++ back

namespace Spliced

variable {α : Type} {l l' x x' y y' : List α}

/-- What stands around both lists makes no difference. -/
theorem around (h : Spliced l l' x x') (front back : List α) :
    Spliced (front ++ l ++ back) (front ++ l' ++ back) x x' := by
  obtain ⟨a, b, rfl, rfl⟩ := h
  exact ⟨front ++ a, b ++ back, by simp only [List.append_assoc], by simp only [List.append_assoc]⟩

/-- The difference of the differences is that of the lists. -/
theorem trans (h : Spliced l l' x x') (hx : Spliced x x' y y') : Spliced l l' y y' := by
  obtain ⟨a, b, rfl, rfl⟩ := h
  exact hx.around a b

theorem subset (h : Spliced l l' x x') : x' ⊆ l' := by
  obtain ⟨a, b, -, rfl⟩ := h
  exact List.subset_append_of_subset_left b (List.subset_append_right a x')

end Spliced

namespace Outline

/-! ## Replacing an entry -/

/-- The outline with another one in place of the entry of a block. -/
def replaced (id : BlockId) : Outline → Outline → Outline
  | .nil, _ => .nil
  | .cons b below next, r =>
    if b.id = id then r.append next else .cons b (below.replaced id r) (next.replaced id r)

variable {o l r : Outline} {id : BlockId} {b c : Block} {depth k : ℕ}

theorem replaced_of_not_mem (h : id ∉ o.ids) (r : Outline) : o.replaced id r = o := by
  induction o with
  | nil => rfl
  | cons b below next ihBelow ihNext =>
    rw [ids, List.mem_cons, List.mem_append, not_or, not_or] at h
    rw [replaced, if_neg (Ne.symm h.1), ihBelow h.2.1, ihNext h.2.2]

theorem updated_of_not_mem (h : id ∉ o.ids) (field : BlockField) (value : FieldValue) :
    o.updated id field value = o := by
  have hsame : o.updated id field value = o.mapBlock fun b => b :=
    mapBlock_congr .top fun n hn => if_neg fun hid => h (by
      rw [← hid, ← o.map_id_nodes .top]
      exact List.mem_map_of_mem hn)
  rw [hsame, mapBlock_self]

theorem mem_ids_of_find? (h : o.find? id = some b) : id ∈ o.ids := by
  by_contra hid
  rw [find?_eq_none_iff.2 hid] at h
  cases h

/-- The block that is found stands somewhere. -/
theorem exists_mem_walk_of_find? (h : o.find? id = some b) (depth : ℕ) :
    b.id = id ∧ ∃ k, (k, b) ∈ o.walk depth := by
  induction o generalizing depth with
  | nil => cases h
  | cons c below next ihBelow ihNext =>
    rw [find?] at h
    split at h
    · rename_i hc
      obtain rfl := Option.some.inj h
      exact ⟨hc, depth, List.mem_cons_self⟩
    · rcases Option.or_eq_some_iff.1 h with h | ⟨-, h⟩
      · obtain ⟨hid, k, hk⟩ := ihBelow h (depth + 1)
        exact ⟨hid, k, List.mem_cons_of_mem _ (List.mem_append_left _ hk)⟩
      · obtain ⟨hid, k, hk⟩ := ihNext h depth
        exact ⟨hid, k, List.mem_cons_of_mem _ (List.mem_append_right _ hk)⟩

/-- What leaves outlines without the block alone, and changes only the entry of the block in one
that has it, replaces that entry. -/
theorem eq_replaced {G : Outline → Outline} (hn : o.ids.Nodup) (hb : o.find? id = some b)
    (hl : o.below? id = some l) (hkeep : ∀ o : Outline, id ∉ o.ids → G o = o)
    (hother : ∀ c below next, c.id ≠ id → G (.cons c below next) = .cons c (G below) (G next))
    (hentry : ∀ next : Outline, b.id = id → id ∉ l.ids → id ∉ next.ids →
      G (.cons b l next) = r.append next) : G o = o.replaced id r := by
  induction o with
  | nil => cases hb
  | cons c below next ihBelow ihNext =>
    obtain ⟨⟨hcBelow, hcNext⟩, hnBelow, hnNext, hdisj⟩ := nodup_cons_iff.1 hn
    rw [find?] at hb
    rcases below?_cons_cases hl with ⟨rfl, rfl⟩ | ⟨hc, hbelow⟩ | ⟨hc, hno, hnext⟩
    · rw [if_pos rfl] at hb
      obtain rfl := Option.some.inj hb
      rw [replaced, if_pos rfl, hentry next rfl hcBelow hcNext]
    · have hid : id ∈ below.ids := mem_ids_of_below? hbelow
      have hfind : below.find? id = some b := by
        rw [if_neg hc] at hb
        rcases Option.or_eq_some_iff.1 hb with hb | ⟨hb, -⟩
        · exact hb
        · exact absurd hid (find?_eq_none_iff.1 hb)
      rw [hother c below next hc, ihBelow hnBelow hfind hbelow, hkeep next (hdisj hid), replaced,
        if_neg hc, replaced_of_not_mem (hdisj hid)]
    · have hfind : next.find? id = some b := by
        rwa [if_neg hc, find?_eq_none_iff.2 hno, Option.none_or] at hb
      rw [hother c below next hc, hkeep below hno, ihNext hnNext hfind hnext, replaced, if_neg hc,
        replaced_of_not_mem hno]

section Edits

variable (hn : o.ids.Nodup) (hb : o.find? id = some b) (hl : o.below? id = some l)

include hn hb hl

theorem replaced_self : o.replaced id (.cons b l .nil) = o :=
  (eq_replaced (G := fun o => o) hn hb hl (fun _ _ => rfl) (fun _ _ _ _ => rfl)
    fun _ _ _ _ => rfl).symm

theorem removed_eq_replaced : o.removed id = o.replaced id .nil :=
  eq_replaced hn hb hl (fun _ => removed_of_not_mem)
    (fun c below next hc => by rw [removed, if_neg hc])
    fun next hid _ hnext => by rw [removed, if_pos hid, removed_of_not_mem hnext, append]

theorem pushBelow_eq_replaced (c : Block) :
    o.pushBelow id c = o.replaced id (.cons b (l.append (.leaf c)) .nil) :=
  eq_replaced (G := (·.pushBelow id c)) hn hb hl (fun _ hid => pushBelow_of_not_mem hid c)
    (fun c' below next hc => by rw [pushBelow, if_neg hc])
    fun next hid _ hnext => by
      rw [pushBelow, if_pos hid, pushBelow_of_not_mem hnext, append, append]

theorem updated_eq_replaced (field : BlockField) (value : FieldValue) :
    o.updated id field value =
      o.replaced id (.cons { b with kind := b.kind.withField field value } l .nil) :=
  eq_replaced (G := (·.updated id field value)) hn hb hl
    (fun _ hid => updated_of_not_mem hid field value)
    (fun c below next hc => congrArg (cons · _ _) (if_neg hc))
    fun next hid hbelow hnext => by
      rw [updated, mapBlock, ← updated, ← updated, updated_of_not_mem hbelow,
        updated_of_not_mem hnext, if_pos hid, append, append]

end Edits

/-! ## Writing entry by entry -/

section Render

variable {α : Type} {front back : ℕ → Block → List α}

/-- What is written for the entries of an outline in document order, something in front of what is
below each block and something behind it, both by the depth of the block. -/
def render (front back : ℕ → Block → List α) (depth : ℕ) : Outline → List α
  | .nil => []
  | .cons b below next =>
    front depth b ++ below.render front back (depth + 1) ++ back depth b ++
      next.render front back depth

theorem render_append (o o' : Outline) (depth : ℕ) : (o.append o').render front back depth =
    o.render front back depth ++ o'.render front back depth := by
  induction o with
  | nil => rfl
  | cons b below next _ ihNext =>
    rw [append, render, render, ihNext]
    simp only [List.append_assoc]

theorem render_single (b : Block) (l : Outline) (depth : ℕ) :
    (cons b l .nil).render front back depth =
      front depth b ++ l.render front back (depth + 1) ++ back depth b := by
  rw [render, render, List.append_nil]

theorem render_eq_flatMap_walk (o : Outline) (depth : ℕ) :
    o.render front (fun _ _ => []) depth = (o.walk depth).flatMap fun e => front e.1 e.2 := by
  induction o generalizing depth with
  | nil => rfl
  | cons b below next ihBelow ihNext =>
    rw [render, walk, List.flatMap_cons, List.flatMap_append, ihBelow, ihNext, List.append_nil,
      List.append_assoc]

theorem render_eq_walk (o : Outline) (depth : ℕ) :
    o.render (fun depth b => [(depth, b)]) (fun _ _ => []) depth = o.walk depth := by
  rw [render_eq_flatMap_walk]
  exact List.flatMap_singleton' _

variable (front back)

/-- **An entry** is written in one stretch, as deep as its block stands; around it stands the same
whatever is in its place. -/
theorem exists_render_replaced (hn : o.ids.Nodup) (h : (k, b) ∈ o.walk depth) (shift : ℕ) :
    ∃ before after, ∀ r, (o.replaced b.id r).render front back (shift + depth) =
      before ++ r.render front back (shift + k) ++ after := by
  induction o generalizing depth with
  | nil => cases h
  | cons c below next ihBelow ihNext =>
    obtain ⟨⟨hcBelow, hcNext⟩, hnBelow, hnNext, hdisj⟩ := nodup_cons_iff.1 hn
    have hmem : ∀ {o : Outline} {depth : ℕ}, (k, b) ∈ o.walk depth → b.id ∈ o.ids :=
      fun {o depth} h => o.map_walk_id depth ▸ List.mem_map_of_mem (f := (·.2.id)) h
    -- The entry is the first one, below that one, or a later one; the other parts do not have it.
    rcases List.mem_cons.1 h with h | h
    · cases h
      refine ⟨[], next.render front back (shift + k), fun r => ?_⟩
      rw [replaced, if_pos rfl, render_append, List.nil_append]
    · rcases List.mem_append.1 h with h | h
      · have hc : c.id ≠ b.id := fun he => hcBelow (he ▸ hmem h)
        obtain ⟨before, after, hsame⟩ := ihBelow hnBelow h
        refine ⟨front (shift + depth) c ++ before,
          after ++ back (shift + depth) c ++ next.render front back (shift + depth), fun r => ?_⟩
        rw [replaced, if_neg hc, render, Nat.add_assoc, hsame, replaced_of_not_mem (hdisj (hmem h))]
        simp only [List.append_assoc]
      · have hc : c.id ≠ b.id := fun he => hcNext (he ▸ hmem h)
        have hbelow : b.id ∉ below.ids := fun hm => hdisj hm (hmem h)
        obtain ⟨before, after, hsame⟩ := ihNext hnNext h
        refine ⟨front (shift + depth) c ++ below.render front back (shift + depth + 1) ++
          back (shift + depth) c ++ before, after, fun r => ?_⟩
        rw [replaced, if_neg hc, render, hsame, replaced_of_not_mem hbelow]
        simp only [List.append_assoc]

/-- Another entry in place of one is a difference at one position. -/
theorem spliced_replaced (hn : o.ids.Nodup) (h : (k, b) ∈ o.walk depth) (r r' : Outline)
    (shift : ℕ) :
    Spliced ((o.replaced b.id r).render front back (shift + depth))
      ((o.replaced b.id r').render front back (shift + depth))
      (r.render front back (shift + k)) (r'.render front back (shift + k)) := by
  obtain ⟨before, after, hsame⟩ := exists_render_replaced front back hn h shift
  exact ⟨before, after, hsame r, hsame r'⟩

/-! ## Edits are written at one position -/

/-- **A field replaced** changes what stands in front of what is below the block, if what stands
behind it does not depend on the field. -/
theorem spliced_updated (hn : o.ids.Nodup) (hb : o.find? id = some b) (field : BlockField)
    (value : FieldValue) (hback : ∀ depth,
      back depth { b with kind := b.kind.withField field value } = back depth b) :
    ∃ k, (k, b) ∈ o.walk 0 ∧ ∀ shift,
      Spliced (o.render front back shift) ((o.updated id field value).render front back shift)
        (front (shift + k) b)
        (front (shift + k) { b with kind := b.kind.withField field value }) := by
  obtain ⟨rfl, k, hk⟩ := exists_mem_walk_of_find? hb 0
  obtain ⟨l, hl⟩ := exists_below? (mem_ids_of_find? hb)
  refine ⟨k, hk, fun shift => ?_⟩
  have h := spliced_replaced front back hn hk (.cons b l .nil)
    (.cons { b with kind := b.kind.withField field value } l .nil) shift
  rw [replaced_self hn hb hl, ← updated_eq_replaced hn hb hl, render_single, render_single,
    hback] at h
  refine h.trans ⟨[], l.render front back (shift + k + 1) ++ back (shift + k) b, ?_, ?_⟩ <;>
    rw [List.nil_append, List.append_assoc]

/-- **An entry removed** takes away what was written for it and all that was below it. -/
theorem spliced_removed (hn : o.ids.Nodup) (hb : o.find? id = some b)
    (hl : o.below? id = some l) :
    ∃ k, (k, b) ∈ o.walk 0 ∧ ∀ shift,
      Spliced (o.render front back shift) ((o.removed id).render front back shift)
        ((cons b l .nil).render front back (shift + k)) [] := by
  obtain ⟨rfl, k, hk⟩ := exists_mem_walk_of_find? hb 0
  refine ⟨k, hk, fun shift => ?_⟩
  have h := spliced_replaced front back hn hk (.cons b l .nil) .nil shift
  rwa [replaced_self hn hb hl, ← removed_eq_replaced hn hb hl] at h

theorem mem_walk_pushBelow (hn : o.ids.Nodup) (hb : o.find? b.id = some b)
    (hk : (k, b) ∈ o.walk 0) (c : Block) : (k + 1, c) ∈ (o.pushBelow b.id c).walk 0 := by
  obtain ⟨l, hl⟩ := exists_below? (mem_ids_of_find? hb)
  have h := spliced_replaced (fun depth b => [(depth, b)]) (fun _ _ => []) hn hk .nil
    (.cons b (l.append (.leaf c)) .nil) 0
  simp only [← pushBelow_eq_replaced hn hb hl, render_eq_walk, walk_single, walk_append,
    Nat.zero_add] at h
  exact h.subset (List.mem_cons_of_mem _ (List.mem_append_right _ List.mem_cons_self))

/-- **A new entry** comes with what is written for it alone. -/
theorem spliced_push (hn : o.ids.Nodup) (c : Block) {place : Place}
    (hl : o.level? place = some l) :
    ∃ k, (k, c) ∈ (o.push c place).walk 0 ∧ ∀ shift,
      Spliced (o.render front back shift) ((o.push c place).render front back shift) []
        ((leaf c).render front back (shift + k)) := by
  cases place with
  | top =>
    have hwalk : (o.append (leaf c)).walk 0 = o.walk 0 ++ [(0, c)] := walk_append o (leaf c) 0
    refine ⟨0, ?_, fun shift => ⟨o.render front back shift, [], ?_, ?_⟩⟩
    · exact hwalk ▸ List.mem_append_right _ List.mem_cons_self
    · rw [List.append_nil, List.append_nil]
    · rw [List.append_nil]
      exact render_append o (leaf c) shift
  | under id =>
    obtain ⟨b, hb⟩ : ∃ b, o.find? id = some b := Option.ne_none_iff_exists'.1 fun hno =>
      find?_eq_none_iff.1 hno (mem_ids_of_below? hl)
    obtain ⟨rfl, k, hk⟩ := exists_mem_walk_of_find? hb 0
    refine ⟨k + 1, mem_walk_pushBelow hn hb hk c, fun shift => ?_⟩
    have h := spliced_replaced front back hn hk (.cons b l .nil)
      (.cons b (l.append (.leaf c)) .nil) shift
    rw [replaced_self hn hb hl, ← pushBelow_eq_replaced hn hb hl, render_single, render_single,
      render_append] at h
    refine h.trans ⟨front (shift + k) b ++ l.render front back (shift + k + 1),
      back (shift + k) b, ?_, ?_⟩
    · rw [List.append_nil]
    · simp only [List.append_assoc, Nat.add_assoc]

end Render

end Outline

namespace Forest.Represents

variable {f g : Forest} {o : Outline} {id : BlockId} {b : Block}

theorem updated_of_update? (h : f.Represents o) {field : BlockField} {value : FieldValue}
    (hg : f.update? id field value = some g) : g.Represents (o.updated id field value) := by
  have hr := h.edited_update id field value
  rwa [edited_of_some (e := .update id field value) hg] at hr

theorem removed_of_remove? (h : f.Represents o) (hg : f.remove? id = some g) :
    g.Represents (o.removed id) := by
  have hr := h.edited_remove id
  rwa [edited_of_some (e := .remove id) hg] at hr

/-- The entry of a block fits the role of the forest. -/
theorem exists_entry (h : f.Represents o) (hb : f.get? id = some b) :
    o.find? id = some b ∧ ∃ l, o.below? id = some l ∧ (Outline.cons b l .nil).Fits f.role := by
  have hfind : o.find? id = some b := by rwa [← h.get?_eq_find?]
  obtain ⟨l, hl⟩ := Outline.exists_below? (Outline.mem_ids_of_find? hfind)
  obtain ⟨n, hn, rfl, hbelow⟩ := Outline.exists_mem_nodes_of_below? hl .top
  have hnode : n ∈ f.nodes := h.nodes.symm.subset hn
  obtain rfl : n.block = b := Option.some.inj ((h.get?_of_mem hnode).symm.trans hb)
  have hfits := h.fits n hnode
  refine ⟨hfind, l, hl, ⟨hfits.takes, fun hne => hfits.below ?_⟩, ?_, trivial⟩
  · rw [hbelow]
    exact Outline.tops_ne_nil_iff.2 hne
  · exact (Outline.forall_fits_iff l (.under n.block.id)).1 fun m hm =>
      h.fits m (h.nodes.symm.subset (Outline.nodes_below?_subset h.nodup hl .top hm))

end Forest.Represents

end Blockscript
