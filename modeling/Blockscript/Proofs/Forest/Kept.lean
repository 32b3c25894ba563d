import Blockscript.Proofs.Forest.Numbered
import Blockscript.Proofs.Forest.Same

/-!
# What a forest keeps of an outline

Not every outline is the nested form of a forest: identifiers may be used twice, blocks may stand
below blocks that are no loops, and kinds may be those of the other role. `Outline.kept` is what is
left without those entries and all that is below them, by recursion on the outline. A forest made of
any outline represents what is kept of it and nothing else (`represents_kept`).
-/

namespace Blockscript

namespace Outline

/-- The entries kept at a place that is free for them, each with what is kept below it: those whose
kind the role takes and whose identifier is not taken by an earlier entry. The places below loops
are free. -/
def keep (role : ForestRole) (free : Bool) (taken : List BlockId) : Outline → Outline
  | .nil => .nil
  | .cons b below next =>
    if free = true ∧ b.id ∉ taken ∧ role.takes b.tag = true then
      let inner := below.keep role b.isContainer (b.id :: taken)
      .cons b inner (next.keep role free (inner.ids ++ b.id :: taken))
    else next.keep role free taken

theorem ids_eq_nil_iff {o : Outline} : o.ids = [] ↔ o = .nil := by
  cases o with
  | nil => exact Iff.intro (fun _ => rfl) fun _ => rfl
  | cons b below next => exact Iff.intro (fun h => nomatch h) fun h => nomatch h

/-- The entries that a forest of the role keeps. -/
def kept (role : ForestRole) (o : Outline) : Outline := o.keep role true []

theorem keep_of_not_free (role : ForestRole) (taken : List BlockId) (o : Outline) :
    o.keep role false taken = .nil := by
  induction o with
  | nil => rfl
  | cons b below next _ ihNext => rw [keep, if_neg (fun h => Bool.false_ne_true h.1), ihNext]

/-- No identifier is kept twice, and none that is taken. -/
theorem nodup_keep (role : ForestRole) (free : Bool) (taken : List BlockId) (o : Outline) :
    (o.keep role free taken).ids.Nodup ∧ ∀ id ∈ (o.keep role free taken).ids, id ∉ taken := by
  induction o generalizing free taken with
  | nil => exact ⟨List.nodup_nil, fun _ hid => absurd hid List.not_mem_nil⟩
  | cons b below next ihBelow ihNext =>
    rw [keep]
    split
    · rename_i hb
      obtain ⟨hinner, hinnerNew⟩ := ihBelow b.isContainer (b.id :: taken)
      obtain ⟨hnext, hnextNew⟩ :=
        ihNext free ((below.keep role b.isContainer (b.id :: taken)).ids ++ b.id :: taken)
      simp only [List.mem_append, List.mem_cons, not_or] at hinnerNew hnextNew
      refine ⟨nodup_cons_iff.2 ⟨⟨fun hid => (hinnerNew _ hid).1 rfl,
        fun hid => (hnextNew _ hid).2.1 rfl⟩, hinner, hnext,
        fun id hid hid' => (hnextNew id hid').1 hid⟩, ?_⟩
      intro id hid
      rw [ids, List.mem_cons, List.mem_append] at hid
      rcases hid with rfl | hid | hid
      · exact hb.2.1
      · exact (hinnerNew id hid).2
      · exact (hnextNew id hid).2.2
    · exact ihNext free taken

/-- What is kept fits the role. -/
theorem fits_keep (role : ForestRole) (free : Bool) (taken : List BlockId) (o : Outline) :
    (o.keep role free taken).Fits role := by
  induction o generalizing free taken with
  | nil => exact trivial
  | cons b below next ihBelow ihNext =>
    rw [keep]
    split
    · rename_i hb
      refine ⟨⟨hb.2.2, fun hne => ?_⟩, ihBelow _ _, ihNext _ _⟩
      by_contra hloop
      rw [Bool.not_eq_true] at hloop
      rw [hloop, keep_of_not_free] at hne
      exact hne rfl
    · exact ihNext free taken

/-- An outline that fits the role is kept as it is. -/
theorem keep_eq_self {role : ForestRole} {taken : List BlockId} {o : Outline} (hfits : o.Fits role)
    (hn : o.ids.Nodup) (hnew : ∀ id ∈ o.ids, id ∉ taken) : o.keep role true taken = o := by
  induction o generalizing taken with
  | nil => rfl
  | cons b below next ihBelow ihNext =>
    obtain ⟨⟨hbBelow, hbNext⟩, hnBelow, hnNext, hdisj⟩ := nodup_cons_iff.1 hn
    obtain ⟨⟨htakes, hloop⟩, hfitsBelow, hfitsNext⟩ := hfits
    rw [ids, List.forall_mem_cons, List.forall_mem_append] at hnew
    obtain ⟨hb, hnewBelow, hnewNext⟩ := hnew
    have hbelow : below.keep role b.isContainer (b.id :: taken) = below := by
      rcases eq_or_ne below .nil with rfl | hne
      · rfl
      · rw [hloop hne]
        refine ihBelow hfitsBelow hnBelow fun id hid => ?_
        rw [List.mem_cons, not_or]
        exact ⟨fun he => hbBelow (he ▸ hid), hnewBelow id hid⟩
    have hnext : next.keep role true (below.ids ++ b.id :: taken) = next := by
      refine ihNext hfitsNext hnNext fun id hid => ?_
      rw [List.mem_append, List.mem_cons, not_or, not_or]
      exact ⟨fun hid' => hdisj hid' hid, fun he => hbNext (he ▸ hid), hnewNext id hid⟩
    rw [keep, if_pos ⟨rfl, hb, htakes⟩, hbelow]
    exact congrArg (Outline.cons b below) hnext

theorem kept_eq_self {role : ForestRole} {o : Outline} (hfits : o.Fits role) (hn : o.ids.Nodup) :
    o.kept role = o := keep_eq_self hfits hn fun _ _ => List.not_mem_nil

end Outline

namespace Forest

theorem takes_of_admits {f : Forest} {tag : BlockTag} {place : Place}
    (h : f.admits tag place = true) : f.role.takes tag = true := by
  cases place with
  | top => rwa [admits_top] at h
  | under id => exact (admits_under_iff.1 h).2.1

theorem contains_of_add? {f g : Forest} {place : Place} {b : Block} (h : f.add? place b = some g)
    (id : BlockId) : g.contains id = true ↔ id = b.id ∨ f.contains id = true := by
  rw [contains_eq_isSome_get?, contains_eq_isSome_get?, get?_of_add? h]
  by_cases hid : b.id = id
  · simp [hid]
  · simp [hid, Ne.symm hid]

/-- Below a block that was just added, its kind decides what may stand. -/
theorem admits_below_of_add? {f g : Forest} {place : Place} {b : Block}
    (h : f.add? place b = some g) {tag : BlockTag} :
    g.admits tag (.under b.id) = true ↔ b.isContainer = true ∧ f.role.takes tag = true := by
  have hrole := role_of_add? h
  have htakes := takes_of_admits (add?_eq_some_iff.1 h).2.1
  rw [admits_under_iff, get?_of_add? h, if_pos rfl, hrole]
  constructor
  · rintro ⟨-, htag, c, hc, hloop⟩
    exact ⟨Option.some.inj hc ▸ hloop, htag⟩
  · rintro ⟨hloop, htag⟩
    exact ⟨ForestRole.eq_statements_of_takes htakes hloop, htag, b, rfl, hloop⟩

theorem attach_cons {f g : Forest} {place : Place} {b : Block} (h : f.add? place b = some g)
    (below next : Outline) :
    f.attach place (.cons b below next) = (g.attach (.under b.id) below).attach place next := by
  rw [attach, h]

/-- **Attaching** an outline adds what is kept of it, and nothing else. -/
theorem attach_keep {f : Forest} {place : Place} {free : Bool} {taken : List BlockId}
    (htaken : ∀ id, f.contains id = true ↔ id ∈ taken)
    (hplace : ∀ tag, f.admits tag place = true ↔ free = true ∧ f.role.takes tag = true)
    (o : Outline) :
    f.attach place o = f.attach place (o.keep f.role free taken) ∧
      ∀ id, (f.attach place o).contains id = true ↔
        id ∈ (o.keep f.role free taken).ids ++ taken := by
  induction o generalizing f place free taken with
  | nil => exact ⟨rfl, htaken⟩
  | cons b below next ihBelow ihNext =>
    rw [Outline.keep]
    split
    · rename_i hb
      have hnew : f.contains b.id = false := by
        rw [← Bool.not_eq_true, htaken]
        exact hb.2.1
      obtain ⟨g, hg⟩ : ∃ g, f.add? place b = some g :=
        ⟨_, add?_eq_some_iff.2 ⟨hnew, (hplace b.tag).2 ⟨hb.1, hb.2.2⟩, rfl⟩⟩
      have hrole := role_of_add? hg
      have htaken' : ∀ id, g.contains id = true ↔ id ∈ b.id :: taken := fun id => by
        rw [contains_of_add? hg, htaken, List.mem_cons]
      obtain ⟨hbelow, hheld⟩ := ihBelow htaken' (fun tag => hrole ▸ admits_below_of_add? hg)
      rw [hrole] at hbelow hheld
      -- What may stand at the place does not change by what was attached in front.
      have hplace' : ∀ tag, (g.attach (.under b.id) below).admits tag place = true ↔
          free = true ∧ (g.attach (.under b.id) below).role.takes tag = true := fun tag => by
        refine ⟨fun ha => ⟨hb.1, takes_of_admits ha⟩, fun ha => admits_attach _ ?_⟩
        rw [role_attach, hrole] at ha
        exact admits_of_add? hg ((hplace tag).2 ha)
      obtain ⟨hnext, hheld'⟩ := ihNext hheld hplace'
      rw [role_attach, hrole] at hnext hheld'
      rw [attach_cons hg, attach_cons hg, ← hbelow]
      refine ⟨hnext, fun id => (hheld' id).trans ?_⟩
      simp only [Outline.ids, List.mem_append, List.mem_cons]
      tauto
    · rename_i hb
      have hnone : f.add? place b = none := by
        rw [Option.eq_none_iff_forall_ne_some]
        intro g hg
        obtain ⟨hnew, hadmits, -⟩ := add?_eq_some_iff.1 hg
        obtain ⟨hfree, htakes⟩ := (hplace b.tag).1 hadmits
        refine hb ⟨hfree, fun hid => ?_, htakes⟩
        rw [(htaken b.id).2 hid] at hnew
        cases hnew
      rw [attach, hnone]
      exact ihNext htaken hplace

/-- **A forest made of any outline** represents what its role keeps of it. -/
theorem represents_kept (role : ForestRole) (o : Outline) :
    (ofOutline role o).Represents (o.kept role) := by
  have hplace : ∀ tag, (empty role).admits tag .top = true ↔
      true = true ∧ (empty role).role.takes tag = true := fun tag => by
    rw [admits_top]
    exact Iff.intro (fun h => ⟨rfl, h⟩) And.right
  have htaken : ∀ id, (empty role).contains id = true ↔ id ∈ ([] : List BlockId) := by
    simp [contains]
  rw [ofOutline, (attach_keep htaken hplace o).1]
  exact represents_ofOutline (Outline.nodup_keep role true [] o).1
    ((Outline.forall_fits_iff _ .top).2 (Outline.fits_keep role true [] o))

/-! ## Built forests -/

namespace Built

variable {role : ForestRole} {f : Forest}

/-- The nested form of a built forest is kept as it is. -/
theorem kept_outline (h : Built role f) : f.outline.kept role = f.outline :=
  Outline.kept_eq_self h.fits h.represents.nodup

/-- The nested form of a built forest makes a forest that represents it again. -/
theorem represents_ofOutline (h : Built role f) :
    (Forest.ofOutline role f.outline).Represents f.outline :=
  Forest.represents_ofOutline h.represents.nodup ((Outline.forall_fits_iff _ .top).2 h.fits)

/-- **A built forest** is made again from its nested form. -/
theorem same_ofOutline (h : Built role f) : f.Same (.ofOutline role f.outline) :=
  have hrole : (Forest.ofOutline role f.outline).role = f.role :=
    (role_attach _ _ _).trans h.role_eq.symm
  (h.represents.same_iff h.represents_ofOutline hrole).2 rfl

end Built

end Forest

end Blockscript
