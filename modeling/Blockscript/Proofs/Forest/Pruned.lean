import Mathlib.Data.Finset.Filter
import Mathlib.Data.Finset.Range
import Blockscript.Proofs.Forest.Kept
import Blockscript.Proofs.Forest.WellFormed

/-!
# Which entries a forest keeps

A forest made of any outline at all has to leave entries out. Here the entries are numbered in
document order, and an entry stays if the one it stands under stays, if it may stand there, and if
no entry before it stays under its identifier (`Entry.Stays`). This settles one entry after the
other, so there is just one set of numbers that agrees with it, and the nested form of the forest is
the outline cut down to these entries (`ofOutline_same_and_pruned`). For an outline that was the
nested form of a forest nothing is left out, and the forest comes out the same.
-/

namespace Blockscript

/-- An entry of an outline by itself: the number of the entry it stands directly under, and its
block. -/
structure Entry where
  owner : Option ℕ
  block : Block
  deriving DecidableEq, Repr

namespace Outline

/-- The entries in document order, with the numbers from `n` on. -/
def listing (owner : Option ℕ) (n : ℕ) : Outline → List Entry
  | .nil => []
  | .cons b below next =>
    ⟨owner, b⟩ :: (below.listing (some n) (n + 1) ++ next.listing owner (n + 1 + below.size))

/-- The outline cut down to the entries of the given numbers, if the first one has the number `n`.
An entry that is left out goes with all that is below it. -/
def restrict (numbers : Finset ℕ) (n : ℕ) : Outline → Outline
  | .nil => .nil
  | .cons b below next =>
    if n ∈ numbers then
      .cons b (below.restrict numbers (n + 1)) (next.restrict numbers (n + 1 + below.size))
    else next.restrict numbers (n + 1 + below.size)

@[simp] theorem length_listing (o : Outline) (owner : Option ℕ) (n : ℕ) :
    (o.listing owner n).length = o.size := by
  induction o generalizing owner n with
  | nil => rfl
  | cons b below next ihBelow ihNext =>
    rw [listing, List.length_cons, List.length_append, ihBelow, ihNext, size]
    omega

/-- An entry stands under an earlier one, or where the whole outline stands. -/
theorem owner_lt {o : Outline} {owner : Option ℕ} {n i m : ℕ} {e : Entry}
    (h : (o.listing owner n)[i]? = some e) (hm : e.owner = some m) :
    owner = some m ∨ m < n + i := by
  induction o generalizing owner n i with
  | nil => cases h
  | cons b below next ihBelow ihNext =>
    rw [listing] at h
    cases i with
    | zero =>
      obtain rfl := Option.some.inj h
      exact .inl hm
    | succ i =>
      rw [List.getElem?_cons_succ, List.getElem?_append, length_listing] at h
      split at h
      · right
        rcases ihBelow h with hn | hlt
        · have := Option.some.inj hn
          omega
        · omega
      · exact (ihNext h).imp_right fun hlt => by omega

end Outline

/-- Whether a role has a kind of block at the top, or directly under a block of another kind. -/
def ForestRole.AdmitsUnder : ForestRole → Option BlockTag → BlockTag → Prop
  | .statements, owner, tag => tag ≠ .precondition ∧ (owner = none ∨ owner = some .forEach)
  | .preconditions, owner, tag => tag = .precondition ∧ owner = none

/-- Whether an entry stays, if of the entries before it those of the numbers `kept` do. -/
structure Entry.Stays (role : ForestRole) (entries : List Entry) (kept : Finset ℕ) (n : ℕ)
    (e : Entry) : Prop where
  /-- What it stands under stays, and so what that stands under does. -/
  owner : ∀ m, e.owner = some m → m ∈ kept
  admitted :
    role.AdmitsUnder (e.owner.bind fun m => (entries[m]?).map (·.block.tag)) e.block.tag
  fresh : ∀ m < n, m ∈ kept → ∀ e', entries[m]? = some e' → e'.block.id ≠ e.block.id

/-- Whether a set has the numbers of just the entries that stay. -/
def Settles (role : ForestRole) (entries : List Entry) (kept : Finset ℕ) : Prop :=
  ∀ n, n ∈ kept ↔ ∃ e, entries[n]? = some e ∧ e.Stays role entries kept n

/-! ## One set of numbers -/

section Finset

variable {Q : Finset ℕ → ℕ → Prop}
  (hsmaller : ∀ s t n, (∀ m < n, m ∈ s ↔ m ∈ t) → Q s n → Q t n)

include hsmaller

theorem iff_of_smaller {s t : Finset ℕ} {n : ℕ} (h : ∀ m < n, m ∈ s ↔ m ∈ t) : Q s n ↔ Q t n :=
  ⟨hsmaller s t n h, hsmaller t s n fun m hm => (h m hm).symm⟩

/-- Below a bound, a property that depends on smaller numbers only can be settled number by
number. -/
theorem exists_finset_below (bound : ℕ) :
    ∃ s : Finset ℕ, ∀ n, n ∈ s ↔ n < bound ∧ Q s n := by
  classical
  induction bound with
  | zero => exact ⟨∅, fun n => by simp⟩
  | succ k ih =>
    obtain ⟨s, hs⟩ := ih
    have hmem : ∀ n, n ∈ (Finset.range (k + 1)).filter (Q s) ↔ n < k + 1 ∧ Q s n := by simp
    have hsame : ∀ m < k, m ∈ s ↔ m ∈ (Finset.range (k + 1)).filter (Q s) := by
      intro m hm
      rw [hs, hmem]
      exact and_congr_left fun _ => iff_of_true hm (by omega)
    refine ⟨(Finset.range (k + 1)).filter (Q s), fun n => ?_⟩
    rw [hmem]
    refine and_congr_right fun hn => ?_
    exact iff_of_smaller hsmaller fun m hm => hsame m (by omega)

/-- A property of numbers that depends on a set of smaller numbers only, and has a bound, holds of
the members of just one set. -/
theorem existsUnique_finset (bound : ℕ) (hbound : ∀ s n, Q s n → n < bound) :
    ∃! s : Finset ℕ, ∀ n, n ∈ s ↔ Q s n := by
  obtain ⟨s, hs⟩ := exists_finset_below hsmaller bound
  have hmem : ∀ n, n ∈ s ↔ Q s n := by
    intro n
    rw [hs]
    exact and_iff_right_of_imp (hbound s n)
  refine ⟨s, hmem, fun t ht => ?_⟩
  ext n
  induction n using Nat.strong_induction_on with
  | _ n ih =>
    rw [ht, hmem]
    exact iff_of_smaller hsmaller ih

end Finset

/-- **One set** of entries stays of every outline. -/
theorem Outline.existsUnique_settles (role : ForestRole) (o : Outline) :
    ∃! kept, Settles role (o.listing none 0) kept := by
  refine existsUnique_finset ?_ o.size ?_
  · rintro s t n hsame ⟨e, he, hstays⟩
    refine ⟨e, he, fun m hm => ?_, hstays.admitted, fun m hlt hm => ?_⟩
    · have hlt : m < n := by
        rcases owner_lt he hm with hnone | hlt
        · cases hnone
        · omega
      exact (hsame m hlt).1 (hstays.owner m hm)
    · exact hstays.fresh m hlt ((hsame m hlt).2 hm)
  · rintro s n ⟨e, he, -⟩
    rw [← o.length_listing none 0]
    exact (List.getElem?_eq_some_iff.1 he).1

/-! ## What is kept -/

section Kept

variable {role : ForestRole} {entries : List Entry} {kept : Finset ℕ}

/-- The entries from a number on, taken apart. -/
theorem listing_cons_prefix {b : Block} {below next : Outline} {owner : Option ℕ} {n : ℕ}
    (h : (Outline.cons b below next).listing owner n <+: entries.drop n) :
    entries[n]? = some ⟨owner, b⟩ ∧ below.listing (some n) (n + 1) <+: entries.drop (n + 1) ∧
      next.listing owner (n + 1 + below.size) <+: entries.drop (n + 1 + below.size) := by
  obtain ⟨rest, hrest⟩ := h
  rw [Outline.listing, List.cons_append, List.append_assoc] at hrest
  have hhead : entries[n]? = some ⟨owner, b⟩ := by
    rw [← List.head?_drop, ← hrest, List.head?_cons]
  have htail : below.listing (some n) (n + 1) ++
      (next.listing owner (n + 1 + below.size) ++ rest) = entries.drop (n + 1) := by
    rw [← List.drop_drop, ← hrest, List.drop_succ_cons, List.drop_zero]
  refine ⟨hhead, ⟨_, htail⟩, rest, ?_⟩
  rw [← List.drop_drop, ← htail, List.drop_left' (Outline.length_listing below _ _)]

/-- Nothing stays below an entry that does not. -/
theorem Settles.not_mem_of_owner (h : Settles role entries kept) {o : Outline} {owner n : ℕ}
    (ho : o.listing (some owner) n <+: entries.drop n) (howner : owner ∉ kept) :
    ∀ m, n ≤ m → m < n + o.size → m ∉ kept := by
  induction o generalizing owner n with
  | nil =>
    intro m hle hlt
    rw [Outline.size] at hlt
    omega
  | cons b below next ihBelow ihNext =>
    obtain ⟨hhead, hbelow, hnext⟩ := listing_cons_prefix ho
    have hself : n ∉ kept := by
      intro hn
      obtain ⟨e, he, hstays⟩ := (h n).1 hn
      rw [hhead] at he
      exact howner (hstays.owner owner (by rw [← Option.some.inj he]))
    intro m hle hlt
    rw [Outline.size] at hlt
    by_cases hm : m = n
    · exact hm ▸ hself
    · by_cases hin : m < n + 1 + below.size
      · exact ihBelow hbelow hself m (by omega) hin
      · exact ihNext hnext howner m (by omega) (by omega)

/-- Whether an identifier is one of those that the entries before a number stay under. -/
def TakenBefore (entries : List Entry) (kept : Finset ℕ) (n : ℕ) (id : BlockId) : Prop :=
  ∃ m ∈ kept, m < n ∧ ∃ e, entries[m]? = some e ∧ e.block.id = id

theorem takenBefore_succ {n : ℕ} {e : Entry} (hn : n ∈ kept) (he : entries[n]? = some e)
    (id : BlockId) :
    TakenBefore entries kept (n + 1) id ↔ id = e.block.id ∨ TakenBefore entries kept n id := by
  constructor
  · rintro ⟨m, hm, hlt, e', he', rfl⟩
    rcases Nat.lt_succ_iff_lt_or_eq.1 hlt with hlt | rfl
    · exact .inr ⟨m, hm, hlt, e', he', rfl⟩
    · rw [he] at he'
      exact .inl (by rw [Option.some.inj he'])
  · rintro (rfl | ⟨m, hm, hlt, hid⟩)
    · exact ⟨n, hn, Nat.lt_succ_self n, e, he, rfl⟩
    · exact ⟨m, hm, by omega, hid⟩

theorem takenBefore_add_of_not_mem {n k : ℕ} (h : ∀ m, n ≤ m → m < n + k → m ∉ kept)
    (id : BlockId) : TakenBefore entries kept (n + k) id ↔ TakenBefore entries kept n id := by
  constructor
  · rintro ⟨m, hm, hlt, hid⟩
    refine ⟨m, hm, ?_, hid⟩
    by_contra hle
    exact h m (by omega) hlt hm
  · rintro ⟨m, hm, hlt, hid⟩
    exact ⟨m, hm, by omega, hid⟩

/-- Directly under a block of its own, a role admits its kinds if the block is a loop. -/
theorem ForestRole.admitsUnder_some_iff {b : Block} (hb : role.takes b.tag = true)
    (tag : BlockTag) :
    role.AdmitsUnder (some b.tag) tag ↔ b.isContainer = true ∧ role.takes tag = true := by
  have hloop : b.isContainer = true ↔ b.tag = .forEach := beq_iff_eq
  rw [hloop]
  cases role with
  | statements => simp [AdmitsUnder, takes, and_comm]
  | preconditions =>
    have htag : b.tag = .precondition := beq_iff_eq.1 hb
    simp [AdmitsUnder, htag]

theorem ForestRole.admitsUnder_none_iff (tag : BlockTag) :
    role.AdmitsUnder none tag ↔ role.takes tag = true := by
  cases role <;> simp [AdmitsUnder, takes]

/-- Whether the keeping of an outline stands, before the entry of a number, where the set says: what
it stands under stays just if more may stand there, and the identifiers of what stays are taken. -/
structure Tracks (role : ForestRole) (entries : List Entry) (kept : Finset ℕ) (owner : Option ℕ)
    (n : ℕ) (free : Bool) (taken : List BlockId) : Prop where
  free_iff : ∀ tag, free = true ∧ role.takes tag = true ↔ (∀ m, owner = some m → m ∈ kept) ∧
    role.AdmitsUnder (owner.bind fun m => (entries[m]?).map (·.block.tag)) tag
  taken_iff : ∀ id, id ∈ taken ↔ TakenBefore entries kept n id

section Tracks

variable {owner : Option ℕ} {n : ℕ} {free : Bool} {taken : List BlockId} {b : Block}

/-- Before the first entry everything may stand, and nothing is taken. -/
theorem tracks_initial (role : ForestRole) (entries : List Entry) (kept : Finset ℕ) :
    Tracks role entries kept none 0 true [] := by
  refine ⟨fun tag => ?_, fun id => ?_⟩
  · rw [Option.bind_none, ForestRole.admitsUnder_none_iff]
    exact and_congr_left fun _ => iff_of_true rfl fun m hm => nomatch hm
  · refine iff_of_false List.not_mem_nil ?_
    rintro ⟨m, -, hlt, -⟩
    exact Nat.not_lt_zero m hlt

/-- What is kept next is what stays. -/
theorem Tracks.keeps_iff (ht : Tracks role entries kept owner n free taken)
    (h : Settles role entries kept) (hhead : entries[n]? = some ⟨owner, b⟩) :
    free = true ∧ b.id ∉ taken ∧ role.takes b.tag = true ↔ n ∈ kept := by
  rw [h n, hhead]
  constructor
  · rintro ⟨hf, hnew, htakes⟩
    obtain ⟨howner, hadmitted⟩ := (ht.free_iff b.tag).1 ⟨hf, htakes⟩
    refine ⟨_, rfl, howner, hadmitted, ?_⟩
    intro m hlt hm e' he' hid
    exact hnew ((ht.taken_iff b.id).2 ⟨m, hm, hlt, e', he', hid⟩)
  · rintro ⟨e, he, hstays⟩
    obtain rfl := Option.some.inj he
    obtain ⟨hf, htakes⟩ := (ht.free_iff b.tag).2 ⟨hstays.owner, hstays.admitted⟩
    refine ⟨hf, ?_, htakes⟩
    intro hid
    obtain ⟨m, hm, hlt, e', he', hid'⟩ := (ht.taken_iff b.id).1 hid
    exact hstays.fresh m hlt hm e' he' hid'

/-- Behind an entry that stays, the keeping goes on below it. -/
theorem Tracks.below (ht : Tracks role entries kept owner n free taken) (hn : n ∈ kept)
    (hhead : entries[n]? = some ⟨owner, b⟩) (htakes : role.takes b.tag = true) :
    Tracks role entries kept (some n) (n + 1) b.isContainer (b.id :: taken) := by
  refine ⟨fun tag => ?_, fun id => ?_⟩
  · rw [Option.bind_some, hhead, Option.map_some, ForestRole.admitsUnder_some_iff htakes]
    exact (and_iff_right fun m hm => Option.some.inj hm ▸ hn).symm
  · rw [List.mem_cons, ht.taken_iff, takenBefore_succ hn hhead]

/-- Past entries that do not stay, the keeping goes on as before. -/
theorem Tracks.skip (ht : Tracks role entries kept owner n free taken) {k : ℕ}
    (hnone : ∀ m, n ≤ m → m < n + k → m ∉ kept) :
    Tracks role entries kept owner (n + k) free taken := by
  refine ⟨ht.free_iff, fun id => ?_⟩
  rw [ht.taken_iff, takenBefore_add_of_not_mem hnone]

/-- **What is kept** of a part of an outline is the part cut down to the entries that stay. -/
theorem Tracks.keep_eq_restrict (ht : Tracks role entries kept owner n free taken)
    (h : Settles role entries kept) {o : Outline} (ho : o.listing owner n <+: entries.drop n) :
    o.keep role free taken = o.restrict kept n ∧
      Tracks role entries kept owner (n + o.size) free ((o.keep role free taken).ids ++ taken) := by
  induction o generalizing owner n free taken with
  | nil => exact ⟨rfl, ht⟩
  | cons b below next ihBelow ihNext =>
    obtain ⟨hhead, hbelow, hnext⟩ := listing_cons_prefix ho
    have hiff := ht.keeps_iff h hhead
    have hsize : n + (Outline.cons b below next).size = n + 1 + below.size + next.size := by
      rw [Outline.size]
      omega
    rw [Outline.keep, Outline.restrict, hsize, if_congr hiff rfl rfl]
    split
    · rename_i hn
      obtain ⟨-, -, htakes⟩ := hiff.2 hn
      obtain ⟨hinner, hheld⟩ := ihBelow (ht.below hn hhead htakes) hbelow
      obtain ⟨hrest, hheld'⟩ := ihNext ⟨ht.free_iff, hheld.taken_iff⟩ hnext
      rw [hinner] at hrest hheld' ⊢
      refine ⟨congrArg (Outline.cons b _) hrest, ht.free_iff, fun id => ?_⟩
      rw [← hheld'.taken_iff]
      simp only [Outline.ids, List.mem_append, List.mem_cons]
      tauto
    · rename_i hn
      -- Nothing below the entry stays either, so that nothing more is taken.
      have hnone : ∀ m, n ≤ m → m < n + (1 + below.size) → m ∉ kept := by
        intro m hle hlt
        by_cases hm : m = n
        · exact hm ▸ hn
        · exact h.not_mem_of_owner hbelow hn m (by omega) (by omega)
      have hskip := ht.skip hnone
      rw [← Nat.add_assoc] at hskip
      exact ihNext hskip hnext

end Tracks

/-- **What a role keeps** of an outline is the outline cut down to the entries that stay. -/
theorem Settles.kept_eq_restrict {o : Outline} (h : Settles role (o.listing none 0) kept) :
    o.kept role = o.restrict kept 0 :=
  ((tracks_initial role _ kept).keep_eq_restrict h (List.prefix_refl _)).1

end Kept

/-- **Nested forms and forests.** Any forest, wherever it comes from and whatever the edits, is made
again from its nested form. And of any outline at all a forest is made whose nested form is the
outline cut down to the entries that stay, of which there is one set only. -/
theorem Forest.ofOutline_same_and_pruned :
    (∀ (origin : Origin) (es : List Edit),
      (origin.forest.editAll es).Same
        (ofOutline (origin.forest.editAll es).role (origin.forest.editAll es).outline)) ∧
      ∀ (role : ForestRole) (o : Outline), ∃! kept : Finset ℕ,
        Settles role (o.listing none 0) kept ∧ (ofOutline role o).outline = o.restrict kept 0 := by
  refine ⟨fun origin es => ?_, fun role o => ?_⟩
  · have hbuilt := origin.built.editAll es
    rw [hbuilt.role_eq]
    exact hbuilt.same_ofOutline
  · obtain ⟨kept, hkept, hunique⟩ := o.existsUnique_settles role
    refine ⟨kept, ⟨hkept, ?_⟩, fun kept' hkept' => hunique kept' hkept'.1⟩
    rw [(represents_kept role o).outline_eq, Settles.kept_eq_restrict hkept]

end Blockscript
