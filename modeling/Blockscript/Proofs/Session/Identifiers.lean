import Blockscript.Proofs.Script.Drawn
import Blockscript.Proofs.Session.Run

/-!
# Identifiers of a session

The two forests of a session share one supply of identifiers. `handedOut` is what an operation hands
out: one identifier for a block to be added, and those of all blocks for a text that is read. It is
just what the operation takes from the supply (`perm_handedOut`), which never goes back, so that
nothing is handed out twice; what an operation keeps of the blocks keeps its identifiers
(`Narrows`). `Numbered` is the invariant: identifiers in use are distinct and were all handed out,
and a rule has no preconditions.
-/

namespace Blockscript.Session

open Script

/-- The identifiers in use, in both forests. -/
def blockIds (s : Session) : List BlockId := s.statements.ids ++ s.preconditions.ids

/-- The identifiers that an operation hands out: that of a block to be added, even if the block is
then refused, and those of the blocks of a text that is read. -/
def handedOut (s : Session) : Op → List BlockId
  | .add .. => [s.ids.fresh]
  | .openText text => (s.openText text).blockIds
  | .resync => s.resync.blockIds
  | _ => []

/-- The identifiers that operations hand out, one after the other. -/
def handedOutAll (s : Session) : List Op → List BlockId
  | [] => []
  | e :: ops => s.handedOut e ++ (s.perform e).handedOutAll ops

/-- Whether an operation asks for identifiers. -/
def Op.asks : Op → Bool
  | .add .. | .openText _ | .resync => true
  | _ => false

variable {s t u : Session}

/-! ## Operations that ask for none -/

/-- Whether a session has no block that another one had not, and the same supply. -/
structure Narrows (s t : Session) : Prop where
  mode_eq : t.mode = s.mode
  ids_eq : t.ids = s.ids
  statements : t.statements.ids.Sublist s.statements.ids
  preconditions : t.preconditions.ids.Sublist s.preconditions.ids

namespace Narrows

theorem of_eq (hmode : t.mode = s.mode) (hids : t.ids = s.ids) (hS : t.statements = s.statements)
    (hP : t.preconditions = s.preconditions) : Narrows s t :=
  ⟨hmode, hids, by rw [hS], by rw [hP]⟩

theorem refl (s : Session) : Narrows s s := of_eq rfl rfl rfl rfl

theorem withStatements (h : Narrows s t) {f : Forest} (hf : f.ids.Sublist t.statements.ids) :
    Narrows s { t with statements := f } :=
  ⟨h.mode_eq, h.ids_eq, hf.trans h.statements, h.preconditions⟩

theorem withPreconditions (h : Narrows s t) {f : Forest} (hf : f.ids.Sublist t.preconditions.ids) :
    Narrows s { t with preconditions := f } :=
  ⟨h.mode_eq, h.ids_eq, h.statements, hf.trans h.preconditions⟩

theorem commit (h : Narrows s t) : Narrows s t.commit :=
  ⟨h.mode_eq, h.ids_eq, h.statements, h.preconditions⟩

theorem setField? (h : Narrows s t) {id : BlockId} {field : BlockField} {value : FieldValue}
    (ht : t.setField? id field value = some u) : Narrows s u := by
  rcases setField?_cases ht with ⟨f, hf, rfl⟩ | ⟨-, f, hf, rfl⟩
  · exact h.withStatements (by rw [Forest.ids_of_update? hf])
  · exact h.withPreconditions (by rw [Forest.ids_of_update? hf])

theorem followField (h : Narrows s t) (id : BlockId) (field : BlockField) :
    Narrows s (t.followField id field) := by
  unfold Session.followField
  split <;> exact ⟨h.mode_eq, h.ids_eq, h.statements, h.preconditions⟩

theorem setArgs (h : Narrows s t) (id : BlockId) (args : List CallArg) :
    Narrows s (t.setArgs id args).2 := by
  rcases t.setArgs_cases id args with ht | ⟨u, hu, ht⟩
  · rwa [ht]
  · rw [ht]
    exact (h.setField? hu).commit

theorem retarget (h : Narrows s t) (id : BlockId) (product method : String) :
    Narrows s (t.retarget id product method) := by
  rcases retarget_cases h (fun ht => ht.setField?) product method with ht | ⟨u, hu, ht⟩
  · rwa [ht]
  · rw [ht]
    exact hu.commit

end Narrows

/-- **An operation that asks for no identifier** adds no block. -/
theorem narrows_perform (s : Session) {e : Op} (he : e.asks = false) : Narrows s (s.perform e) := by
  have hs := Narrows.refl s
  cases e with
  | add place kind => cases he
  | openText text => cases he
  | resync => cases he
  | update id field value =>
    rw [perform]
    rcases s.update_cases id field value with ht | ⟨t, hset, ht⟩ <;> rw [ht]
    · exact hs
    · exact ((hs.setField? hset).followField id field).commit
  | remove id =>
    rw [perform]
    rcases s.remove_cases id with ⟨-, ht⟩ | ⟨f, hf, ht⟩ | ⟨-, f, hf, ht⟩ <;> rw [ht]
    · exact hs
    · exact ⟨rfl, rfl, Forest.sublist_ids_of_remove? hf, .refl _⟩
    · exact ⟨rfl, rfl, .refl _, Forest.sublist_ids_of_remove? hf⟩
  | reorder active goal =>
    rw [perform]
    rcases s.reorder_cases active goal with ht | ⟨f, hf, ht⟩ | ⟨f, hf, ht⟩ <;> rw [ht]
    · exact hs
    · exact (hs.withStatements (by rw [Forest.ids_of_reorder? hf])).commit
    · exact (hs.withPreconditions (by rw [Forest.ids_of_reorder? hf])).commit
  | setHeader header =>
    rw [perform, setHeader]
    split <;> exact .of_eq rfl rfl rfl rfl
  | select id product method =>
    rw [perform]
    rcases hc : s.call? id with _ | c
    · rwa [select_of_none hc]
    · have ht := hs.retarget id product method
      rw [select_of_some hc]
      exact ⟨ht.mode_eq, ht.ids_eq, ht.statements, ht.preconditions⟩
  | editArgument id name value =>
    rw [perform, editArgument]
    split
    · exact hs
    · exact hs.setArgs id _
  | editFreeText id raw =>
    rw [perform, editFreeText]
    split
    · exact hs
    · have ht : Narrows s { s with
          calls := s.calls.setFreeText id raw (Arguments.read raw.toList) } :=
        .of_eq rfl rfl rfl rfl
      exact ht.setArgs id _
  | setManual id manual =>
    rw [perform, setManual]
    split <;> exact .of_eq rfl rfl rfl rfl
  | _ => exact .of_eq rfl rfl rfl rfl

/-! ## What is handed out -/

theorem handedOut_of_asks {e : Op} (he : e.asks = false) : s.handedOut e = [] := by
  cases e with
  | add place kind => cases he
  | openText text => cases he
  | resync => cases he
  | _ => rfl

theorem ids_add (s : Session) (place : Place) (kind : BlockKind) :
    (s.add place kind).2.ids = s.ids.advance := by
  rcases s.add_cases place kind with ht | ⟨-, f, -, ht⟩ | ⟨f, -, ht⟩ <;> rw [ht] <;> rfl

theorem next_le_perform (s : Session) (e : Op) : s.ids.next ≤ (s.perform e).ids.next := by
  by_cases he : e.asks = false
  · exact Nat.le_of_eq (congrArg IdSupply.next (s.narrows_perform he).ids_eq).symm
  · cases e with
    | add place kind =>
      rw [perform, ids_add]
      exact Nat.le_succ _
    | openText text => exact next_le_parse s.mode s.ids text
    | resync => exact next_le_parse s.mode s.ids (s.source.getD "")
    | _ => exact absurd rfl he

/-- **What an operation hands out** is what it takes from the supply. -/
theorem perm_handedOut (s : Session) (e : Op) :
    (s.handedOut e).Perm (s.ids.drawn (s.perform e).ids) := by
  by_cases he : e.asks = false
  · rw [handedOut_of_asks he, (s.narrows_perform he).ids_eq, IdSupply.drawn_self]
  · cases e with
    | add place kind =>
      rw [perform, ids_add, IdSupply.drawn_advance_self]
      exact .refl _
    | openText text => exact perm_ids_parse s.mode s.ids text
    | resync => exact perm_ids_parse s.mode s.ids (s.source.getD "")
    | _ => exact absurd rfl he

theorem next_le_performAll (s : Session) (ops : List Op) :
    s.ids.next ≤ (s.performAll ops).ids.next := by
  induction ops generalizing s with
  | nil => exact Nat.le_refl _
  | cons e ops ih => exact (s.next_le_perform e).trans (ih (s.perform e))

/-- **What operations hand out** is what they take from the supply. -/
theorem perm_handedOutAll (s : Session) (ops : List Op) :
    (s.handedOutAll ops).Perm (s.ids.drawn (s.performAll ops).ids) := by
  induction ops generalizing s with
  | nil =>
    rw [handedOutAll, performAll, List.foldl_nil, IdSupply.drawn_self]
  | cons e ops ih =>
    have hsplit := IdSupply.drawn_append (s.next_le_perform e)
      ((s.perform e).next_le_performAll ops)
    show (s.handedOut e ++ (s.perform e).handedOutAll ops).Perm
      (s.ids.drawn ((s.perform e).performAll ops).ids)
    rw [← hsplit]
    exact (s.perm_handedOut e).append (ih (s.perform e))

theorem nodup_handedOutAll (s : Session) (ops : List Op) : (s.handedOutAll ops).Nodup :=
  (s.perm_handedOutAll ops).nodup_iff.2 (IdSupply.nodup_drawn _ _)

theorem next_le_of_mem_handedOutAll {ops : List Op} {id : BlockId}
    (h : id ∈ s.handedOutAll ops) : s.ids.next ≤ id.val :=
  (IdSupply.mem_drawn_iff.1 ((s.perm_handedOutAll ops).subset h)).1

/-! ## Additions -/

/-- An addition puts the fresh identifier in one of the forests, or changes no block. -/
theorem perm_blockIds_add (s : Session) (place : Place) (kind : BlockKind) :
    (s.add place kind).2.blockIds = s.blockIds ∨
      (s.add place kind).2.blockIds.Perm (s.ids.fresh :: s.blockIds) := by
  rcases s.add_cases place kind with ht | ⟨-, f, hf, ht⟩ | ⟨f, hf, ht⟩ <;> rw [ht]
  · exact .inl rfl
  · right
    show (s.statements.ids ++ f.ids).Perm (s.ids.fresh :: s.blockIds)
    rw [Forest.ids_of_add? hf]
    exact List.perm_middle
  · right
    show (f.ids ++ s.preconditions.ids).Perm (s.ids.fresh :: s.blockIds)
    rw [Forest.ids_of_add? hf]
    exact .refl _

/-- **The blocks after an operation** were there before or have identifiers just handed out. -/
theorem mem_blockIds_perform {e : Op} {id : BlockId} (h : id ∈ (s.perform e).blockIds) :
    id ∈ s.blockIds ∨ id ∈ s.handedOut e := by
  by_cases he : e.asks = false
  · have hn := s.narrows_perform he
    exact .inl ((hn.statements.append hn.preconditions).subset h)
  · cases e with
    | add place kind =>
      rcases s.perm_blockIds_add place kind with hsame | hperm
      · exact .inl (hsame ▸ h)
      · rcases List.mem_cons.1 (hperm.subset h) with rfl | hid
        · exact .inr List.mem_cons_self
        · exact .inl hid
    | openText text => exact .inr h
    | resync => exact .inr h
    | _ => exact absurd rfl he

theorem mem_blockIds_performAll {ops : List Op} {id : BlockId}
    (h : id ∈ (s.performAll ops).blockIds) : id ∈ s.blockIds ∨ id ∈ s.handedOutAll ops := by
  induction ops generalizing s with
  | nil => exact .inl h
  | cons e ops ih =>
    rcases ih (s := s.perform e) h with hid | hid
    · rcases mem_blockIds_perform hid with hid | hid
      · exact .inl hid
      · exact .inr (List.mem_append_left _ hid)
    · exact .inr (List.mem_append_right _ hid)

/-! ## The invariant -/

/-- Whether the identifiers in use are distinct and were handed out, and whether a rule has no
preconditions. -/
structure Numbered (s : Session) : Prop where
  nodup : s.blockIds.Nodup
  lt : ∀ id ∈ s.blockIds, id.val < s.ids.next
  rule : s.mode = .rule → s.preconditions.ids = []

namespace Numbered

theorem of_narrows (h : s.Numbered) (ht : Narrows s t) : t.Numbered := by
  have hsub : t.blockIds.Sublist s.blockIds := ht.statements.append ht.preconditions
  refine ⟨h.nodup.sublist hsub, fun id hid => ?_, fun hmode => ?_⟩
  · rw [ht.ids_eq]
    exact h.lt id (hsub.subset hid)
  · have hnone := h.rule (ht.mode_eq ▸ hmode)
    exact List.sublist_nil.1 (hnone ▸ ht.preconditions)

theorem add (h : s.Numbered) (place : Place) (kind : BlockKind) :
    (s.add place kind).2.Numbered := by
  have hfresh : s.ids.fresh ∉ s.blockIds := fun hid => Nat.lt_irrefl _ (h.lt _ hid)
  refine ⟨?_, fun id hid => ?_, ?_⟩
  · rcases s.perm_blockIds_add place kind with hsame | hperm
    · rw [hsame]
      exact h.nodup
    · exact hperm.nodup_iff.2 (List.nodup_cons.2 ⟨hfresh, h.nodup⟩)
  · rw [ids_add]
    rcases s.perm_blockIds_add place kind with hsame | hperm
    · exact (h.lt id (hsame ▸ hid)).trans (Nat.lt_succ_self _)
    · rcases List.mem_cons.1 (hperm.subset hid) with rfl | hid
      · exact Nat.lt_succ_self _
      · exact (h.lt id hid).trans (Nat.lt_succ_self _)
  · rcases s.add_cases place kind with ht | ⟨hmode, f, -, ht⟩ | ⟨f, -, ht⟩ <;> rw [ht]
    · exact h.rule
    · intro hrule
      cases hmode.symm.trans hrule
    · exact h.rule

/-- A text that was read is numbered anew, whatever was there. -/
theorem resync (s : Session) : s.resync.Numbered := by
  have hperm : s.resync.blockIds.Perm (s.ids.drawn s.resync.ids) :=
    perm_ids_parse s.mode s.ids (s.source.getD "")
  refine ⟨hperm.nodup_iff.2 (IdSupply.nodup_drawn _ _), fun id hid => ?_, fun hmode => ?_⟩
  · exact (IdSupply.mem_drawn_iff.1 (hperm.subset hid)).2
  · have hnone := preconditions_parse_rule s.ids (s.source.getD "")
    have hmode' : s.mode = .rule := hmode
    show ((parse s.mode s.ids (s.source.getD "")).1.preconditions).ids = []
    rw [hmode', hnone]
    rfl

/-- **An operation** keeps a session numbered. -/
theorem perform (h : s.Numbered) (e : Op) : (s.perform e).Numbered := by
  by_cases he : e.asks = false
  · exact h.of_narrows (s.narrows_perform he)
  · cases e with
    | add place kind => exact h.add place kind
    | openText text => exact resync (s.setSource text)
    | resync => exact resync s
    | _ => exact absurd rfl he

end Numbered

theorem numbered_new (mode : Mode) (header : Header) : (Session.new mode header).Numbered :=
  ⟨List.nodup_nil, fun _ hid => absurd hid List.not_mem_nil, fun _ => rfl⟩

theorem numbered_opening (opening : Opening) : opening.session.Numbered := by
  cases opening with
  | new mode header => exact numbered_new mode header
  | build mode header listeners source =>
    cases source with
    | none =>
      have h := numbered_new mode header
      exact ⟨h.nodup, h.lt, h.rule⟩
    | some text => exact Numbered.resync _
  | definition d => exact Numbered.resync _

end Blockscript.Session
