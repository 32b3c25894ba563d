import Mathlib.Logic.Relation
import Blockscript.Proofs.Forest.Represents

/-!
# Blocks that stand under others

`Owns` reads the places of a forest as links from a block to those directly under it, and `Encloses`
follows them to any depth. In a forest that represents an outline the places and the orders say the
same (`mem_order_iff`), every block is under a root (`exists_root`), no block is under itself
(`not_transGen_owns_self`), and the family of a block is what it encloses (`mem_family_iff`).
-/

namespace Blockscript

namespace Forest

/-- Whether a block stands directly under `owner`. -/
def Owns (f : Forest) (owner id : BlockId) : Prop := f.place? id = some (.under owner)

/-- Whether a block is another one or stands under it, at any depth. -/
def Encloses (f : Forest) : BlockId → BlockId → Prop := Relation.ReflTransGen f.Owns

section Holds

variable {f : Forest} {place : Place} {o : Outline} {id : BlockId}

theorem place?_of_mem_tops (h : f.Holds place o) (hid : id ∈ o.tops) :
    f.place? id = some place := by
  induction o with
  | nil => exact absurd hid List.not_mem_nil
  | cons b below next _ ihNext =>
    obtain ⟨hb, -, hnext⟩ := holds_cons.1 h
    rcases List.mem_cons.1 hid with rfl | hid
    · rw [place?, hb]
      rfl
    · exact ihNext hnext hid

/-- Every block of an outline is under one of the first level. -/
theorem exists_top_encloses (h : f.Holds place o) (hid : id ∈ o.ids) :
    ∃ top ∈ o.tops, f.Encloses top id := by
  induction o generalizing place with
  | nil => exact absurd hid List.not_mem_nil
  | cons b below next ihBelow ihNext =>
    obtain ⟨-, hbelow, hnext⟩ := holds_cons.1 h
    rw [Outline.ids, List.mem_cons, List.mem_append] at hid
    rcases hid with rfl | hid | hid
    · exact ⟨b.id, List.mem_cons_self, .refl⟩
    · obtain ⟨top, htop, hencloses⟩ := ihBelow hbelow hid
      have howns : f.Owns b.id top := place?_of_mem_tops hbelow htop
      exact ⟨b.id, List.mem_cons_self, .head howns hencloses⟩
    · obtain ⟨top, htop, hencloses⟩ := ihNext hnext hid
      exact ⟨top, List.mem_cons_of_mem b.id htop, hencloses⟩

end Holds

namespace Represents

variable {f : Forest} {o l : Outline} {place : Place} {id owner : BlockId}

theorem holds_level (h : f.Represents o) (hl : o.level? place = some l) : f.Holds place l := by
  cases place with
  | top =>
    rw [← Option.some.inj hl]
    exact h.holds
  | under owner => exact fun n hn => h.holds n (Outline.nodes_below?_subset h.nodup hl .top hn)

theorem exists_level_of_mem_order (h : f.Represents o) (hid : id ∈ f.order place) :
    ∃ l, o.level? place = some l := by
  cases place with
  | top => exact ⟨o, rfl⟩
  | under owner =>
    refine Outline.exists_below? (h.contains_iff.1 ?_)
    rw [contains]
    rcases hn : f.node? owner with _ | n
    · rw [order, hn] at hid
      exact absurd hid List.not_mem_nil
    · rfl

/-- **Orders and places** say the same: a block is listed where it stands, and only there. -/
theorem mem_order_iff (h : f.Represents o) : id ∈ f.order place ↔ f.place? id = some place := by
  constructor
  · intro hid
    obtain ⟨l, hl⟩ := h.exists_level_of_mem_order hid
    rw [h.order_eq hl] at hid
    exact place?_of_mem_tops (h.holds_level hl) hid
  · intro hplace
    obtain ⟨n, hn, rfl⟩ := Option.map_eq_some_iff.1 hplace
    obtain ⟨l, hl, hid⟩ := h.exists_level_of_node? hn
    rwa [h.order_eq hl]

/-- **Every block** is under a root. -/
theorem exists_root (h : f.Represents o) (hid : id ∈ o.ids) :
    ∃ root ∈ f.roots, f.Encloses root id := by
  rw [h.roots]
  exact exists_top_encloses h.holds hid

/-- What is below a block is smaller than what is below its owner. -/
theorem size_lt_of_owns (h : f.Represents o) (howns : f.Owns owner id) :
    ∃ l sub, o.below? owner = some l ∧ o.below? id = some sub ∧ sub.size < l.size := by
  obtain ⟨n, hn, hplace⟩ := Option.map_eq_some_iff.1 howns
  obtain ⟨l, hl, htop⟩ := h.exists_level_of_node? hn
  rw [hplace] at hl
  have hnl : l.ids.Nodup := h.nodup.sublist (Outline.ids_sublist_of_level? hl)
  obtain ⟨-, sub, -, hsub, -⟩ := Outline.exists_entry hnl htop
  exact ⟨l, sub, hl, Outline.below?_of_level? h.nodup hl hsub, Outline.size_lt_of_below? hsub⟩

theorem size_lt_of_transGen_owns (h : f.Represents o)
    (howns : Relation.TransGen f.Owns owner id) :
    ∃ l sub, o.below? owner = some l ∧ o.below? id = some sub ∧ sub.size < l.size := by
  induction howns with
  | single howns => exact h.size_lt_of_owns howns
  | tail _ howns ih =>
    obtain ⟨l, mid, hl, hmid, hlt⟩ := ih
    obtain ⟨mid', sub, hmid', hsub, hlt'⟩ := h.size_lt_of_owns howns
    obtain rfl : mid = mid' := Option.some.inj (hmid.symm.trans hmid')
    exact ⟨l, sub, hl, hsub, Nat.lt_trans hlt' hlt⟩

/-- **No block** is under itself. -/
theorem not_transGen_owns_self (h : f.Represents o) (id : BlockId) :
    ¬ Relation.TransGen f.Owns id id := by
  intro howns
  obtain ⟨l, sub, hl, hsub, hlt⟩ := h.size_lt_of_transGen_owns howns
  obtain rfl : l = sub := Option.some.inj (hl.symm.trans hsub)
  exact Nat.lt_irrefl _ hlt

/-- **The family** of a block is the blocks that it encloses. -/
theorem mem_family_iff (h : f.Represents o) (hid : f.contains id = true) {id' : BlockId} :
    id' ∈ f.family id ↔ f.Encloses id id' := by
  obtain ⟨l, hl⟩ := Outline.exists_below? (h.contains_iff.1 hid)
  have hlevel : o.level? (.under id) = some l := hl
  rw [h.family_eq hl, List.mem_cons]
  constructor
  · rintro (rfl | hmem)
    · exact .refl
    · have hholds : f.Holds (.under id) l := h.holds_level hl
      obtain ⟨top, htop, hencloses⟩ := exists_top_encloses hholds hmem
      exact .head (place?_of_mem_tops hholds htop) hencloses
  · intro hencloses
    -- One more link down leads from a block below `id` to another one.
    induction hencloses with
    | refl => exact .inl rfl
    | tail _ howns ih =>
      rename_i owner sub _
      right
      have hsub := h.mem_order_iff.2 howns
      rcases ih with rfl | hmem
      · rw [h.order_eq hlevel] at hsub
        exact l.tops_sublist_ids.subset hsub
      · obtain ⟨l', hl'⟩ := Outline.exists_below? hmem
        have hlevel' : o.level? (.under owner) = some l' := Outline.below?_of_below? h.nodup hl hl'
        rw [h.order_eq hlevel'] at hsub
        exact (Outline.ids_sublist_of_below? hl').subset (l'.tops_sublist_ids.subset hsub)

end Represents

end Forest

end Blockscript
