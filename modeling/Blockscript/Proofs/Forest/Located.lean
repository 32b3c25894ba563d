import Blockscript.Proofs.Forest.Nested
import Blockscript.Proofs.Forest.Numbered

/-!
# Places in the nested form

`Outline.at?` follows a path into an outline: the position of an entry among those of its level,
then a position among those below that entry, and so on. A path tells where a block stands without
its identifier, so that one path is the same place in two outlines of other identifiers. Every block
stands at a path (`exists_at?`), and changing blocks one by one moves none (`at?_mapBlock`).
-/

namespace Blockscript.Outline

/-- The block at a path: the position of an entry on its level, and the path from there on. -/
def at? : Outline → List ℕ → Option Block
  | .nil, _ => none
  | .cons _ _ _, [] => none
  | .cons b _ _, [0] => some b
  | .cons _ below _, 0 :: i :: path => below.at? (i :: path)
  | .cons _ _ next, (i + 1) :: path => next.at? (i :: path)

variable {o o' : Outline} {id : BlockId} {b : Block} {path : List ℕ}

/-- The empty path leads to no block. -/
theorem exists_eq_cons_of_at? (h : o.at? path = some b) : ∃ i rest, path = i :: rest := by
  cases path with
  | nil => cases o <;> cases h
  | cons i rest => exact ⟨i, rest, rfl⟩

/-- **Every block** stands at a path. -/
theorem exists_at? (h : o.find? id = some b) : ∃ path, o.at? path = some b := by
  induction o with
  | nil => cases h
  | cons c below next ihBelow ihNext =>
    unfold find? at h
    split at h
    · exact ⟨[0], h⟩
    · rcases Option.or_eq_some_iff.1 h with h | ⟨-, h⟩
      · obtain ⟨path, hpath⟩ := ihBelow h
        obtain ⟨i, rest, rfl⟩ := exists_eq_cons_of_at? hpath
        exact ⟨0 :: i :: rest, hpath⟩
      · obtain ⟨path, hpath⟩ := ihNext h
        obtain ⟨i, rest, rfl⟩ := exists_eq_cons_of_at? hpath
        exact ⟨(i + 1) :: rest, hpath⟩

/-- Changing blocks one by one moves none of them. -/
theorem at?_mapBlock (change : Block → Block) (o : Outline) (path : List ℕ) :
    (o.mapBlock change).at? path = (o.at? path).map change := by
  induction o generalizing path with
  | nil => rfl
  | cons b below next ihBelow ihNext =>
    -- The cases of `at?`: no step, a step onto the first entry or past it, and past the others.
    rcases path with _ | ⟨_ | i, _ | ⟨k, path⟩⟩
    · rfl
    · rfl
    · exact ihBelow (k :: path)
    · exact ihNext [i]
    · exact ihNext (i :: k :: path)

/-- A block with a field replaced stands where it stood. -/
theorem at?_updated (h : o.at? path = some b) (field : BlockField) (value : FieldValue) :
    (o.updated b.id field value).at? path = some ⟨b.id, b.kind.withField field value⟩ := by
  unfold updated
  rw [at?_mapBlock, h, Option.map_some, if_pos rfl]

theorem mapKind_eq_mapBlock (change : BlockKind → BlockKind) (o : Outline) :
    o.mapKind change = o.mapBlock fun b => ⟨b.id, change b.kind⟩ := by
  induction o with
  | nil => rfl
  | cons b below next ihBelow ihNext => rw [mapKind, mapBlock, ihBelow, ihNext]

theorem anonymous_eq_mapBlock (o : Outline) :
    o.anonymous = o.mapBlock fun b => ⟨⟨0⟩, b.kind⟩ := by
  induction o with
  | nil => rfl
  | cons b below next ihBelow ihNext => rw [anonymous, mapBlock, ihBelow, ihNext]

/-- Outlines that are alike but for their identifiers have blocks of the same kind at a path. -/
theorem exists_at?_of_anonymous_eq (h : o.anonymous = o'.anonymous) (hb : o.at? path = some b) :
    ∃ id', o'.at? path = some ⟨id', b.kind⟩ := by
  have hat : (o'.at? path).map (fun b => (⟨⟨0⟩, b.kind⟩ : Block)) = some ⟨⟨0⟩, b.kind⟩ := by
    rw [← at?_mapBlock, ← anonymous_eq_mapBlock, ← h, anonymous_eq_mapBlock, at?_mapBlock, hb]
    rfl
  obtain ⟨⟨id', kind⟩, hb', hkind⟩ := Option.map_eq_some_iff.1 hat
  cases hkind
  exact ⟨id', hb'⟩

end Blockscript.Outline
