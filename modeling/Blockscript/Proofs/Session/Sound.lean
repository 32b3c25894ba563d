import Blockscript.Proofs.Forest.Kept
import Blockscript.Proofs.Forest.WellFormed
import Blockscript.Proofs.Session.Identifiers

/-!
# Sound sessions

What holds of a session however it was opened and whatever was done to it, going on from its own
snapshots included: `sound_play`. Its identifiers are distinct and never handed out again, its
forests hold what they may, and its text is what they are written as. A session restored from its
own snapshot has the very blocks it had (`perm_blockIds_restore`), so that it is numbered again.
-/

namespace Blockscript

namespace Forest

/-- The forest of the outline of a built forest has its identifiers. -/
theorem Built.perm_ids_ofOutline {role : ForestRole} {f : Forest} (h : Built role f) :
    (Forest.ofOutline role f.outline).ids.Perm f.ids :=
  h.represents_ofOutline.perm_ids.trans h.represents.perm_ids.symm

theorem Built.mem_ids_iff {role : ForestRole} {f : Forest} (h : Built role f) {id : BlockId} :
    id ∈ f.ids ↔ ∃ e ∈ f.walk, e.2.id = id := by
  have hf := h.represents
  rw [hf.walk_eq, ← List.mem_map, Outline.map_walk_id]
  exact hf.perm_ids.mem_iff

/-- A built forest of statements holds no preconditions, and nests under loops only. -/
theorem Built.forall_statements {f : Forest} (h : Built .statements f) :
    ∀ n ∈ f.nodes, n.block.tag ≠ .precondition ∧ (n.below ≠ [] → n.block.tag = .forEach) := by
  intro n hmem
  have hwf := h.represents.wellFormed
  rw [h.role_eq] at hwf
  exact ⟨hwf.statements rfl n hmem, hwf.loops n hmem⟩

/-- A built forest of preconditions holds those alone, and flat. -/
theorem Built.forall_preconditions {f : Forest} (h : Built .preconditions f) :
    ∀ n ∈ f.nodes, n.block.tag = .precondition ∧ n.place = .top ∧ n.below = [] := by
  intro n hmem
  have hwf := h.represents.wellFormed
  rw [h.role_eq] at hwf
  obtain ⟨htag, htop⟩ := hwf.preconditions rfl n hmem
  refine ⟨htag, htop, ?_⟩
  by_contra hbelow
  cases htag.symm.trans (hwf.loops n hmem hbelow)

end Forest

namespace IdSupply

/-- A supply that was reserved past blocks hands out later identifiers only. -/
theorem lt_foldl_reservePast {blocks : List (ℕ × Block)} {e : ℕ × Block} (h : e ∈ blocks)
    (s : IdSupply) : e.2.id.val < (blocks.foldl (fun s b => s.reservePast b.2.id) s).next := by
  have hmono : ∀ (blocks : List (ℕ × Block)) (s : IdSupply),
      s.next ≤ (blocks.foldl (fun s b => s.reservePast b.2.id) s).next := by
    intro blocks
    induction blocks with
    | nil => exact fun s => Nat.le_refl _
    | cons b blocks ih => exact fun s => (s.next_le_reservePast b.2.id).trans (ih _)
  induction blocks generalizing s with
  | nil => exact absurd h List.not_mem_nil
  | cons b blocks ih =>
    rcases List.mem_cons.1 h with rfl | h
    · exact Nat.lt_of_lt_of_le (s.val_lt_reservePast e.2.id) (hmono blocks _)
    · exact ih h _

end IdSupply

namespace Session

variable {mode : Mode} {header : Header} {s : Session}

/-! ## Restoring -/

/-- A restored session hands out later identifiers only. -/
theorem val_lt_restore (n : Snapshot) :
    ∀ id ∈ (restore n).blockIds, id.val < (restore n).ids.next := by
  intro id hid
  have hS : Forest.Built .statements (restore n).statements := .ofOutline _
  have hP : Forest.Built .preconditions (restore n).preconditions := .ofOutline _
  have hwalk : ∃ e ∈ (restore n).statements.walk ++ (restore n).preconditions.walk,
      e.2.id = id := by
    rcases List.mem_append.1 hid with hid | hid
    · obtain ⟨e, he, rfl⟩ := hS.mem_ids_iff.1 hid
      exact ⟨e, List.mem_append_left _ he, rfl⟩
    · obtain ⟨e, he, rfl⟩ := hP.mem_ids_iff.1 hid
      exact ⟨e, List.mem_append_right _ he, rfl⟩
  obtain ⟨e, he, rfl⟩ := hwalk
  exact IdSupply.lt_foldl_reservePast he .initial

theorem InStep.perm_blockIds_restore (h : InStep mode header s) :
    (restore s.snapshot).blockIds.Perm s.blockIds :=
  h.statements.perm_ids_ofOutline.append h.preconditions.perm_ids_ofOutline

/-- **A session restored** from its own snapshot is numbered. -/
theorem Numbered.restore (h : s.Numbered) (hs : InStep mode header s) :
    (restore s.snapshot).Numbered := by
  refine ⟨hs.perm_blockIds_restore.nodup_iff.2 h.nodup, val_lt_restore s.snapshot, fun hmode => ?_⟩
  have hnone := h.rule hmode
  have hsame := hs.preconditions.perm_ids_ofOutline
  rw [hnone] at hsame
  exact hsame.eq_nil

/-! ## Moves -/

/-- An operation of the host, or going on from a snapshot taken just now. -/
inductive Move where
  | op (e : Op)
  | reload
  deriving Repr

/-- The session after a move. -/
def move (s : Session) : Move → Session
  | .op e => s.perform e
  | .reload => restore s.snapshot

/-- The session after moves one after the other. -/
def play (s : Session) (moves : List Move) : Session := moves.foldl move s

theorem InStep.move (h : InStep mode header s) (m : Move) :
    InStep mode (s.move m).header (s.move m) := by
  cases m with
  | op e => exact h.perform e
  | reload =>
    have hmode : s.snapshot.mode = mode := h.mode_eq
    exact hmode ▸ inStep_restore s.snapshot

theorem Numbered.move (h : s.Numbered) (hs : InStep mode header s) (m : Move) :
    (s.move m).Numbered := by
  cases m with
  | op e => exact h.perform e
  | reload => exact h.restore hs

/-- **Any moves** leave a session in step. -/
theorem InStep.play (h : InStep mode header s) (moves : List Move) :
    InStep mode (s.play moves).header (s.play moves) := by
  induction moves generalizing header s with
  | nil => exact h.header_eq ▸ h
  | cons m moves ih => exact ih (h.move m)

/-- A numbered session in step stays numbered, whatever the moves. -/
theorem Numbered.play (hn : s.Numbered) (h : InStep mode header s) (moves : List Move) :
    (s.play moves).Numbered := by
  -- A reload is numbered only where the forests are built.
  induction moves generalizing header s with
  | nil => exact hn
  | cons m moves ih => exact ih (hn.move h m) (h.move m)

/-! ## Soundness -/

/-- What holds of every session. -/
structure Sound (s : Session) : Prop where
  /-- No identifier is used twice, in one forest or in both. -/
  distinct : s.blockIds.Nodup
  /-- The next identifier is larger than all in use. -/
  lt_fresh : ∀ id ∈ s.blockIds, id.val < s.ids.fresh.val
  /-- Operations hand out just what the supply gives, -/
  drawn : ∀ ops, (s.handedOutAll ops).Perm (s.ids.drawn (s.performAll ops).ids)
  /-- nothing twice, -/
  handedOut_nodup : ∀ ops, (s.handedOutAll ops).Nodup
  /-- nothing that is in use, -/
  handedOut_fresh : ∀ ops, ∀ id ∈ s.handedOutAll ops, id ∉ s.blockIds
  /-- and all that comes into use. -/
  accounted : ∀ ops, ∀ id ∈ (s.performAll ops).blockIds, id ∈ s.blockIds ∨ id ∈ s.handedOutAll ops
  statements : ∀ n ∈ s.statements.nodes,
    n.block.tag ≠ .precondition ∧ (n.below ≠ [] → n.block.tag = .forEach)
  preconditions : ∀ n ∈ s.preconditions.nodes,
    n.block.tag = .precondition ∧ n.place = .top ∧ n.below = []
  rule : s.mode = .rule → s.preconditions.nodes = []
  text_eq : s.text = Script.write s.mode s.header s.statements s.preconditions

theorem Numbered.sound (hn : s.Numbered) (h : InStep mode header s) : s.Sound where
  distinct := hn.nodup
  lt_fresh := hn.lt
  drawn := s.perm_handedOutAll
  handedOut_nodup := s.nodup_handedOutAll
  handedOut_fresh _ id hid huse :=
    absurd (hn.lt id huse) (Nat.not_lt.2 (next_le_of_mem_handedOutAll hid))
  accounted _ _ hid := mem_blockIds_performAll hid
  statements := h.statements.forall_statements
  preconditions := h.preconditions.forall_preconditions
  rule hmode := Forest.ids_eq_nil_iff.1 (hn.rule hmode)
  text_eq := by rw [h.text_eq, h.mode_eq, h.header_eq]

/-- **Every session** is sound, however it was opened and whatever moves were made: its identifiers
are distinct, come before the next one and are not handed out again by any operations, its forests
hold only what they may, and its text is the one written from them. -/
theorem sound_play (opening : Opening) (moves : List Move) : (opening.session.play moves).Sound :=
  have h := inStep_opening opening
  ((numbered_opening opening).play h moves).sound (h.play moves)

end Session

end Blockscript
