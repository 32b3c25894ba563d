import Blockscript.Proofs.Forest.Attach

/-!
# Outlines with other identifiers or kinds

`Outline.numbered` gives the blocks of an outline the identifiers from a number on, in document
order; `Outline.mapKind` replaces their kinds. Neither changes the shape, so that an outline that
fits a role still does, and one that was numbered has no identifier twice.
-/

namespace Blockscript

namespace Outline

variable {role : ForestRole}

/-- Whether all blocks have kinds of the role, and blocks below them only if they are loops. -/
def Fits (role : ForestRole) : Outline → Prop
  | .nil => True
  | .cons b below next =>
    (role.takes b.tag = true ∧ (below ≠ .nil → b.isContainer = true)) ∧ below.Fits role ∧
      next.Fits role

theorem tops_ne_nil_iff {o : Outline} : o.tops ≠ [] ↔ o ≠ .nil := by
  cases o with
  | nil => exact Iff.intro (fun h => absurd rfl h) fun h => absurd rfl h
  | cons b below next =>
    exact Iff.intro (fun _ => Outline.noConfusion) fun _ => List.cons_ne_nil _ _

theorem forall_fits_iff (o : Outline) (place : Place) :
    (∀ n ∈ o.nodes place, role.Fits n) ↔ o.Fits role := by
  induction o generalizing place with
  | nil => exact Iff.intro (fun _ => trivial) fun _ n hn => absurd hn List.not_mem_nil
  | cons b below next ihBelow ihNext =>
    rw [nodes, List.forall_mem_cons, List.forall_mem_append, ihBelow, ihNext, Fits]
    refine and_congr_left fun _ => ?_
    rw [← tops_ne_nil_iff]
    exact Iff.intro (fun h => ⟨h.takes, h.below⟩) fun h => ⟨h.1, h.2⟩

/-! ## Numbering -/

/-- The outline with the identifiers from `n` on, in document order. -/
def numbered (n : ℕ) : Outline → Outline
  | .nil => .nil
  | .cons b below next =>
    .cons ⟨⟨n⟩, b.kind⟩ (below.numbered (n + 1)) (next.numbered (n + 1 + below.size))

@[simp] theorem size_numbered (n : ℕ) (o : Outline) : (o.numbered n).size = o.size := by
  induction o generalizing n with
  | nil => rfl
  | cons b below next ihBelow ihNext => rw [numbered, size, size, ihBelow, ihNext]

theorem mem_ids_numbered {n : ℕ} {o : Outline} {id : BlockId} (h : id ∈ (o.numbered n).ids) :
    n ≤ id.val ∧ id.val < n + o.size := by
  induction o generalizing n with
  | nil => exact absurd h List.not_mem_nil
  | cons b below next ihBelow ihNext =>
    rw [numbered, ids, List.mem_cons, List.mem_append] at h
    rw [size]
    rcases h with rfl | h | h
    · exact ⟨Nat.le_refl n, by dsimp only; omega⟩
    · have := ihBelow h
      omega
    · have := ihNext h
      omega

theorem nodup_ids_numbered (n : ℕ) (o : Outline) : (o.numbered n).ids.Nodup := by
  induction o generalizing n with
  | nil => exact List.nodup_nil
  | cons b below next ihBelow ihNext =>
    refine nodup_cons_iff.2 ⟨⟨fun h => ?_, fun h => ?_⟩, ihBelow _, ihNext _, fun id h h' => ?_⟩
    · exact absurd (mem_ids_numbered h).1 (by dsimp only; omega)
    · exact absurd (mem_ids_numbered h).1 (by dsimp only; omega)
    · have := mem_ids_numbered h
      have := mem_ids_numbered h'
      omega

theorem numbered_eq_nil_iff {n : ℕ} {o : Outline} : o.numbered n = .nil ↔ o = .nil := by
  cases o with
  | nil => exact Iff.intro (fun _ => rfl) fun _ => rfl
  | cons b below next => exact Iff.intro Outline.noConfusion Outline.noConfusion

theorem fits_numbered {o : Outline} (n : ℕ) (h : o.Fits role) : (o.numbered n).Fits role := by
  induction o generalizing n with
  | nil => trivial
  | cons b below next ihBelow ihNext =>
    obtain ⟨⟨htakes, hbelow⟩, hfitsBelow, hfitsNext⟩ := h
    refine ⟨⟨htakes, ?_⟩, ihBelow _ hfitsBelow, ihNext _ hfitsNext⟩
    intro hne
    exact hbelow fun hnil => hne (numbered_eq_nil_iff.2 hnil)

/-- Numbering changes identifiers only. -/
theorem anonymous_numbered (n : ℕ) (o : Outline) : (o.numbered n).anonymous = o.anonymous := by
  induction o generalizing n with
  | nil => rfl
  | cons b below next ihBelow ihNext => rw [numbered, anonymous, anonymous, ihBelow, ihNext]

/-! ## Kinds -/

/-- The kinds in document order. -/
def kinds : Outline → List BlockKind
  | .nil => []
  | .cons b below next => b.kind :: (below.kinds ++ next.kinds)

theorem map_walk_kind (o : Outline) (depth : ℕ) : (o.walk depth).map (·.2.kind) = o.kinds := by
  induction o generalizing depth with
  | nil => rfl
  | cons b below next ihBelow ihNext =>
    rw [walk, List.map_cons, List.map_append, ihBelow, ihNext, kinds]

theorem map_kind_nodes (o : Outline) (place : Place) :
    (o.nodes place).map (·.block.kind) = o.kinds := by
  induction o generalizing place with
  | nil => rfl
  | cons b below next ihBelow ihNext =>
    rw [nodes, List.map_cons, List.map_append, ihBelow, ihNext, kinds]

theorem kinds_numbered (n : ℕ) (o : Outline) : (o.numbered n).kinds = o.kinds := by
  induction o generalizing n with
  | nil => rfl
  | cons b below next ihBelow ihNext => rw [numbered, kinds, kinds, ihBelow, ihNext]

/-- The outline with its kinds replaced. -/
def mapKind (change : BlockKind → BlockKind) : Outline → Outline
  | .nil => .nil
  | .cons b below next =>
    .cons ⟨b.id, change b.kind⟩ (below.mapKind change) (next.mapKind change)

section MapKind

variable {change : BlockKind → BlockKind}

@[simp] theorem size_mapKind (o : Outline) : (o.mapKind change).size = o.size := by
  induction o with
  | nil => rfl
  | cons b below next ihBelow ihNext => rw [mapKind, size, size, ihBelow, ihNext]

theorem kinds_mapKind (o : Outline) : (o.mapKind change).kinds = o.kinds.map change := by
  induction o with
  | nil => rfl
  | cons b below next ihBelow ihNext =>
    rw [mapKind, kinds, kinds, ihBelow, ihNext, List.map_cons, List.map_append]

theorem ids_mapKind (o : Outline) : (o.mapKind change).ids = o.ids := by
  induction o with
  | nil => rfl
  | cons b below next ihBelow ihNext => rw [mapKind, ids, ids, ihBelow, ihNext]

theorem tops_mapKind (o : Outline) : (o.mapKind change).tops = o.tops := by
  induction o with
  | nil => rfl
  | cons b below next _ ihNext => rw [mapKind, tops, tops, ihNext]

theorem nodes_mapKind (o : Outline) (place : Place) :
    (o.mapKind change).nodes place = (o.nodes place).map fun n =>
      { n with block := ⟨n.block.id, change n.block.kind⟩ } := by
  induction o generalizing place with
  | nil => rfl
  | cons b below next ihBelow ihNext =>
    rw [mapKind, nodes, nodes, List.map_cons, List.map_append, ihBelow, ihNext, tops_mapKind]

theorem mapKind_eq_nil_iff {o : Outline} : o.mapKind change = .nil ↔ o = .nil := by
  cases o with
  | nil => exact Iff.intro (fun _ => rfl) fun _ => rfl
  | cons b below next => exact Iff.intro Outline.noConfusion Outline.noConfusion

theorem isContainer_of_tag_eq {b : Block} (h : ∀ kind, (change kind).tag = kind.tag) :
    Block.isContainer ⟨b.id, change b.kind⟩ = b.isContainer :=
  congrArg (· == BlockTag.forEach) (h b.kind)

theorem fits_mapKind {o : Outline} (hc : ∀ kind, (change kind).tag = kind.tag)
    (h : o.Fits role) : (o.mapKind change).Fits role := by
  induction o with
  | nil => trivial
  | cons b below next ihBelow ihNext =>
    obtain ⟨⟨htakes, hbelow⟩, hfitsBelow, hfitsNext⟩ := h
    refine ⟨⟨?_, fun hne => ?_⟩, ihBelow hfitsBelow, ihNext hfitsNext⟩
    · exact (congrArg role.takes (hc b.kind)).trans htakes
    · rw [isContainer_of_tag_eq hc]
      exact hbelow fun hnil => hne (mapKind_eq_nil_iff.2 hnil)

end MapKind

end Outline

namespace Forest

/-- The forest with its kinds replaced. -/
def mapKind (change : BlockKind → BlockKind) (f : Forest) : Forest :=
  { f with nodes := f.nodes.map fun n => { n with block := ⟨n.block.id, change n.block.kind⟩ } }

theorem Represents.fits_outline {f : Forest} {o : Outline} (h : f.Represents o) : o.Fits f.role :=
  (Outline.forall_fits_iff o .top).1 fun n hn => h.fits n (h.nodes.symm.subset hn)

theorem Represents.forall_walk_iff {f : Forest} {o : Outline} (h : f.Represents o)
    {Q : BlockKind → Prop} : (∀ e ∈ f.walk, Q e.2.kind) ↔ ∀ kind ∈ o.kinds, Q kind := by
  rw [h.walk_eq, ← o.map_walk_kind 0, List.forall_mem_map]

theorem Built.fits {role : ForestRole} {f : Forest} (h : Built role f) : f.outline.Fits role :=
  h.role_eq ▸ h.represents.fits_outline

theorem Represents.mapKind {f : Forest} {o : Outline} (h : f.Represents o)
    {change : BlockKind → BlockKind} (hc : ∀ kind, (change kind).tag = kind.tag) :
    (f.mapKind change).Represents (o.mapKind change) := by
  refine ⟨?_, ?_, ?_, List.forall_mem_map.2 fun n hn => ?_⟩
  · rw [Outline.tops_mapKind]
    exact h.roots
  · rw [Outline.nodes_mapKind]
    exact h.nodes.map _
  · rw [Outline.ids_mapKind]
    exact h.nodup
  · exact (h.fits n hn).congr (hc n.block.kind) fun hb => hb

/-- The forest of an outline that was numbered. -/
theorem represents_numbered {role : ForestRole} {o : Outline} (h : o.Fits role) (n : ℕ) :
    (ofOutline role (o.numbered n)).Represents (o.numbered n) :=
  represents_ofOutline (Outline.nodup_ids_numbered n o)
    ((Outline.forall_fits_iff _ .top).2 (Outline.fits_numbered n h))

end Forest

end Blockscript
