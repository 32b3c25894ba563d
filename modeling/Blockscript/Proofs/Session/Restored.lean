import Blockscript.Proofs.Binary.Format
import Blockscript.Proofs.Forest.Kept
import Blockscript.Proofs.Session.Sound

/-!
# Restored sessions

A session that is restored from its own snapshot, read back from bytes, is the session that was
saved, but for listeners and call editors, which are not saved (`snapshot_lossless`).

Any snapshot at all can be restored; its two outlines are then kept as far as each forest by itself
admits them (`snapshot_restore`). What one forest can see to always holds (`grounded_restore`). The
session is sound exactly if no identifier was kept in both forests and no precondition in a rule
(`sound_restore_iff`).
-/

namespace Blockscript

/-- A document is written from the nested form of its statements and the walk through its
preconditions. -/
theorem Script.write_congr {S S' P P' : Forest} (hS : S'.outline = S.outline)
    (hP : P'.walk = P.walk) (mode : Mode) (header : Header) :
    write mode header S' P' = write mode header S P := by
  cases mode <;> simp only [write, lines, hS, hP]

namespace Session

variable {mode : Mode} {header : Header} {s : Session}

/-! ## What is kept -/

/-- What a session is restored to holds the blocks that its forests keep. -/
theorem snapshot_restore (n : Snapshot) : (restore n).snapshot =
    { n with
      statements := n.statements.kept .statements
      preconditions := n.preconditions.kept .preconditions } := by
  have hS : (restore n).statements.outline = n.statements.kept .statements :=
    (Forest.represents_kept .statements n.statements).outline_eq
  have hP : (restore n).preconditions.outline = n.preconditions.kept .preconditions :=
    (Forest.represents_kept .preconditions n.preconditions).outline_eq
  show Snapshot.mk _ _ _ _ _ _ = _
  rw [hS, hP]
  rfl

/-! ## The session that was saved -/

/-- Whether a session has all that is saved of another one: the document, with the identifiers, the
order and the nesting of its blocks, and its text. -/
structure Restores (s t : Session) : Prop where
  mode_eq : t.mode = s.mode
  header_eq : t.header = s.header
  status_eq : t.status = s.status
  source_eq : t.source = s.source
  statements : s.statements.Same t.statements
  preconditions : s.preconditions.Same t.preconditions
  text_eq : t.text = s.text
  snapshot_eq : t.snapshot = s.snapshot

theorem InStep.restores (h : InStep mode header s) : s.Restores (restore s.snapshot) := by
  have hS := h.statements.represents_ofOutline
  have hP := h.preconditions.represents_ofOutline
  have houtlineS : (restore s.snapshot).statements.outline = s.statements.outline := hS.outline_eq
  have hwalkP : (restore s.snapshot).preconditions.walk = s.preconditions.walk :=
    hP.walk_eq.trans h.preconditions.represents.walk_eq.symm
  refine ⟨rfl, rfl, rfl, rfl, h.statements.same_ofOutline, h.preconditions.same_ofOutline, ?_, ?_⟩
  · have htext := (inStep_restore s.snapshot).text_eq
    have hmode : s.snapshot.mode = mode := h.mode_eq
    have hheader : s.snapshot.header = header := h.header_eq
    rw [htext, h.text_eq, hmode, hheader, Script.write_congr houtlineS hwalkP]
  · rw [snapshot_restore, snapshot, h.statements.kept_outline, h.preconditions.kept_outline]

/-- **Snapshots lose nothing**: the bytes of any snapshot are in the format, and they are read back
as that snapshot, whatever follows them; and however a session was opened or restored and whatever
moves were made, restoring what is read back from the bytes of its snapshot gives the session
again. -/
theorem snapshot_lossless :
    (∀ n : Snapshot, n.Storable → Binary.Spelled (Binary.snapshotAtoms n) n.toBytes ∧
        ∀ rest, Snapshot.ofBytes? (n.toBytes ++ rest) = some n) ∧
      ∀ (start : Start) (moves : List Move), (start.session.play moves).snapshot.Storable →
        ∀ rest, ∃ n, Snapshot.ofBytes? ((start.session.play moves).snapshot.toBytes ++ rest) =
            some n ∧
          (start.session.play moves).Restores (restore n) := by
  refine ⟨fun n hn => ⟨hn.spelled, hn.ofBytes?_toBytes⟩, fun start moves hn rest => ?_⟩
  have hstep := (inStep_start start).play moves
  exact ⟨_, hn.ofBytes?_toBytes rest, hstep.restores⟩

/-- A snapshot whose identifiers and priority take three, five and nine bytes. -/
def farApart : Snapshot where
  mode := .action
  header := { name := "Größe", priority := some (-70000), parameters := [⟨"p", "T", true⟩] }
  status := .dirty
  statements := .cons ⟨⟨300⟩, .forEach "x" "E" none⟩
    (.cons ⟨⟨70000⟩, .call ⟨"p", "m", [⟨"a", "1"⟩]⟩⟩ .nil .nil) .nil
  preconditions := .cons ⟨⟨2 ^ 40⟩, .precondition "c" "true" (some "no")⟩ .nil .nil
  source := some "ACTION"

/-- A move in the session of that snapshot. -/
def inLoop : List Move := [.op (.add (.under ⟨300⟩) (.set "x.a" "1"))]

theorem snapshot_lossless_farApart :
    (Binary.Spelled (Binary.snapshotAtoms farApart) farApart.toBytes ∧
        Snapshot.ofBytes? (farApart.toBytes ++ [0]) = some farApart) ∧
      ∃ n, Snapshot.ofBytes?
          (((Start.restored farApart).session.play inLoop).snapshot.toBytes ++ []) = some n ∧
        ((Start.restored farApart).session.play inLoop).Restores (restore n) := by
  have hsnapshot : farApart.Storable := by decide +kernel
  have hsession : ((Start.restored farApart).session.play inLoop).snapshot.Storable := by
    decide +kernel
  obtain ⟨hspelled, hread⟩ := snapshot_lossless.1 farApart hsnapshot
  exact ⟨⟨hspelled, hread [0]⟩,
    snapshot_lossless.2 (.restored farApart) inLoop hsession []⟩

/-! ## Any snapshot -/

/-- What holds of a session whose forests were made separately: each of them holds what it may,
under distinct identifiers. -/
structure Grounded (s : Session) : Prop where
  distinct_statements : s.statements.ids.Nodup
  distinct_preconditions : s.preconditions.ids.Nodup
  /-- The next identifier is larger than all in use. -/
  lt_fresh : ∀ id ∈ s.blockIds, id.val < s.ids.fresh.val
  statements : ∀ n ∈ s.statements.nodes,
    n.block.tag ≠ .precondition ∧ (n.below ≠ [] → n.block.tag = .forEach)
  preconditions : ∀ n ∈ s.preconditions.nodes,
    n.block.tag = .precondition ∧ n.place = .top ∧ n.below = []
  text_eq : s.text = Script.write s.mode s.header s.statements s.preconditions

theorem grounded_restore (n : Snapshot) : (restore n).Grounded where
  distinct_statements := (inStep_restore n).statements.represents.wellFormed.distinct
  distinct_preconditions := (inStep_restore n).preconditions.represents.wellFormed.distinct
  lt_fresh := val_lt_restore n
  statements := (inStep_restore n).statements.forall_statements
  preconditions := (inStep_restore n).preconditions.forall_preconditions
  text_eq := (inStep_restore n).text_eq

theorem InStep.sound_iff (h : InStep mode header s) : s.Sound ↔ s.Numbered := by
  refine ⟨fun hs => ⟨hs.distinct, hs.lt_fresh, fun hmode => ?_⟩, fun hn => hn.sound h⟩
  exact Forest.ids_eq_nil_iff.2 (hs.rule hmode)

theorem perm_blockIds_restore (n : Snapshot) : (restore n).blockIds.Perm
    ((n.statements.kept .statements).ids ++ (n.preconditions.kept .preconditions).ids) :=
  (Forest.represents_kept .statements n.statements).perm_ids.append
    (Forest.represents_kept .preconditions n.preconditions).perm_ids

/-- **A session restored from any snapshot** is grounded, and it is sound exactly if no identifier
is kept among the statements and among the preconditions, and none of the preconditions is kept in a
rule. -/
theorem sound_restore_iff (n : Snapshot) :
    (restore n).Grounded ∧ ((restore n).Sound ↔
      (n.statements.kept .statements).ids.Disjoint (n.preconditions.kept .preconditions).ids ∧
        (n.mode = .rule → n.preconditions.kept .preconditions = .nil)) := by
  have hS := Forest.represents_kept .statements n.statements
  have hP := Forest.represents_kept .preconditions n.preconditions
  have hnodup : (restore n).blockIds.Nodup ↔ (n.statements.kept .statements).ids.Disjoint
      (n.preconditions.kept .preconditions).ids := by
    rw [(perm_blockIds_restore n).nodup_iff, List.nodup_append']
    exact ⟨fun h => h.2.2, fun h => ⟨hS.nodup, hP.nodup, h⟩⟩
  have hnone : (restore n).preconditions.ids = [] ↔ n.preconditions.kept .preconditions = .nil := by
    have hperm : (restore n).preconditions.ids.Perm (n.preconditions.kept .preconditions).ids :=
      hP.perm_ids
    rw [← Outline.ids_eq_nil_iff]
    exact ⟨fun h => (h ▸ hperm).nil_eq.symm, fun h => (h ▸ hperm).eq_nil⟩
  refine ⟨grounded_restore n, (inStep_restore n).sound_iff.trans ?_⟩
  constructor
  · exact fun hn => ⟨hnodup.1 hn.nodup, fun hmode => hnone.1 (hn.rule hmode)⟩
  · exact fun h => ⟨hnodup.2 h.1, val_lt_restore n, fun hmode => hnone.2 (h.2 hmode)⟩

/-- A rule with a precondition. -/
def checkedRule : Snapshot where
  mode := .rule
  header := { name := "R" }
  status := .synced
  statements := .nil
  preconditions := .cons ⟨⟨0⟩, .precondition "c" "true" none⟩ .nil .nil
  source := none

/-- An action with one identifier among the statements and among the preconditions. -/
def usedTwice : Snapshot where
  mode := .action
  header := { name := "A" }
  status := .synced
  statements := .cons ⟨⟨0⟩, .set "x" "1"⟩ .nil .nil
  preconditions := .cons ⟨⟨0⟩, .precondition "c" "true" none⟩ .nil .nil
  source := none

/-- Neither of the two is restored to a sound session. -/
theorem not_sound_restore : (restore checkedRule).mode = .rule ∧
    (restore checkedRule).preconditions.nodes ≠ [] ∧ ¬ (restore usedTwice).blockIds.Nodup := by
  decide +kernel

end Session

end Blockscript
