import Blockscript.Proofs.Forest.Blocks
import Blockscript.Proofs.Script.Parsed

/-!
# Identifiers that a reading hands out

`IdSupply.drawn` lists the identifiers that were handed out between two states of a supply. A
reading hands out exactly those of the blocks it makes (`perm_ids_parse`), so none is lost and none
is used in both forests; a rule has no preconditions (`preconditions_parse_rule`).
-/

namespace Blockscript

namespace IdSupply

variable {s t u : IdSupply}

/-- The identifiers handed out between two states of a supply. -/
def drawn (s t : IdSupply) : List BlockId := (List.range' s.next (t.next - s.next)).map BlockId.mk

@[simp] theorem drawn_self (s : IdSupply) : s.drawn s = [] := by
  rw [drawn, Nat.sub_self]
  rfl

theorem mem_drawn_iff {id : BlockId} : id ∈ s.drawn t ↔ s.next ≤ id.val ∧ id.val < t.next := by
  rw [drawn, List.mem_map]
  constructor
  · rintro ⟨n, hn, rfl⟩
    rw [List.mem_range'_1] at hn
    exact ⟨hn.1, by dsimp only; omega⟩
  · intro hid
    exact ⟨id.val, List.mem_range'_1.2 (by omega), rfl⟩

theorem nodup_drawn (s t : IdSupply) : (s.drawn t).Nodup :=
  List.Nodup.map (fun _ _ h => congrArg BlockId.val h) List.nodup_range'

theorem drawn_append (h : s.next ≤ t.next) (h' : t.next ≤ u.next) :
    s.drawn t ++ t.drawn u = s.drawn u := by
  have hstart : t.next = s.next + 1 * (t.next - s.next) := by omega
  have hlength : u.next - s.next = t.next - s.next + (u.next - t.next) := by omega
  rw [drawn, drawn, drawn, ← List.map_append, hlength, ← List.range'_append, ← hstart]

theorem drawn_advance_self (s : IdSupply) : s.drawn s.advance = [s.fresh] := by
  rw [drawn, next_advance, Nat.add_sub_cancel_left]
  rfl

theorem drawn_advance (h : s.next ≤ t.next) : s.drawn t.advance = s.drawn t ++ [t.fresh] := by
  have hle : t.next ≤ t.advance.next := Nat.le_succ t.next
  rw [← drawn_advance_self t, drawn_append h hle]

end IdSupply

namespace Script

namespace Progress

/-- Whether the blocks read so far have just the identifiers handed out since the start, and more
can be added. -/
structure Counted (start : IdSupply) (p : Progress) : Prop where
  le : start.next ≤ p.ids.next
  perm : (p.statements.ids ++ p.preconditions.ids).Perm (start.drawn p.ids)
  ready : p.Ready
  isOpen : p.Open

variable {start : IdSupply} {p : Progress}

theorem counted_initial (ids : IdSupply) : Counted ids { ids } := by
  refine ⟨Nat.le_refl _, ?_, ready_of_empty rfl rfl, rfl, fun _ _ => rfl⟩
  rw [IdSupply.drawn_self]
  exact .refl _

/-- The identifiers of a forest stay fresh as others are handed out. -/
theorem Ready.advance (h : p.Ready) {q : Progress} (hs : q.statements = p.statements)
    (hl : q.loops = p.loops) (hn : p.ids.next ≤ q.ids.next) : q.Ready :=
  ⟨hs ▸ h.role, fun id hid => hs ▸ h.fresh id (hn.trans hid), by rw [hs, hl]; exact h.loops⟩

theorem Open.advance (h : p.Open) {q : Progress} (hs : q.preconditions = p.preconditions)
    (hn : p.ids.next ≤ q.ids.next) : q.Open :=
  ⟨hs ▸ h.role, fun id hid => hs ▸ h.fresh id (hn.trans hid)⟩

theorem Counted.addStatement (h : p.Counted start) {kind : BlockKind}
    (htag : kind.tag ≠ .precondition) : (p.addStatement kind).Counted start := by
  obtain ⟨g, hg⟩ := h.ready.exists_add? htag
  refine ⟨h.le.trans (Nat.le_succ _), ?_, h.ready.addStatement htag,
    h.isOpen.advance rfl (Nat.le_succ _)⟩
  have hstatements : (p.addStatement kind).statements = g := by
    rw [Progress.addStatement, hg]
    rfl
  rw [hstatements, Forest.ids_of_add? hg]
  show ((p.ids.fresh :: p.statements.ids) ++ p.preconditions.ids).Perm
    (start.drawn p.ids.advance)
  rw [IdSupply.drawn_advance h.le, List.cons_append]
  exact (h.perm.cons _).trans (List.perm_append_singleton _ _).symm

theorem Counted.addPrecondition (h : p.Counted start) (label conditions : String) :
    (p.addPrecondition label conditions).Counted start := by
  obtain ⟨g, hg⟩ := h.isOpen.exists_add? (.precondition label conditions none) rfl
  have hpreconditions : (p.addPrecondition label conditions).preconditions = g := by
    rw [Progress.addPrecondition, hg]
    rfl
  refine ⟨h.le.trans (Nat.le_succ _), ?_, h.ready.advance rfl rfl (Nat.le_succ _), ?_, ?_⟩
  · rw [hpreconditions, Forest.ids_of_add? hg]
    show (p.statements.ids ++ p.ids.fresh :: p.preconditions.ids).Perm
      (start.drawn p.ids.advance)
    rw [IdSupply.drawn_advance h.le]
    exact (List.perm_middle.trans (h.perm.cons _)).trans (List.perm_append_singleton _ _).symm
  · rw [hpreconditions, Forest.role_of_add? hg, h.isOpen.role]
  · intro id hid
    have hle : p.ids.next + 1 ≤ id.val := hid
    have hne : p.ids.fresh ≠ id := fun he => absurd (congrArg BlockId.val he) (Nat.ne_of_lt hle)
    rw [hpreconditions, Forest.get?_of_add? hg, if_neg hne, h.isOpen.fresh id (by omega)]

theorem Counted.setMessage (h : p.Counted start) (id : BlockId) (message : String) :
    (p.setMessage id message).Counted start := by
  rcases hg : p.preconditions.update? id .onFailure (.text message) with _ | g
  · have hsame : p.setMessage id message = p := by rw [Progress.setMessage, hg]; rfl
    rwa [hsame]
  · have hnext : p.setMessage id message = { p with preconditions := g } := by
      rw [Progress.setMessage, hg]
      rfl
    have hrole : g.role = p.preconditions.role :=
      Forest.role_of_edit? (e := .update id .onFailure (.text message)) hg
    rw [hnext]
    refine ⟨h.le, ?_, h.ready.advance rfl rfl (Nat.le_refl _), hrole.trans h.isOpen.role, ?_⟩
    · rw [Forest.ids_of_update? hg]
      exact h.perm
    · intro id' hid'
      rw [Forest.get?_of_update? hg, h.isOpen.fresh id' hid', Option.map_none]

/-- **A line** keeps the identifiers counted. -/
theorem Counted.step (h : p.Counted start) (mode : Mode) (line : SourceLine) :
    (p.step mode line).Counted start := by
  -- Most lines take no identifier and leave the blocks and the open loops alone.
  have hquiet : ∀ q : Progress, q.ids = p.ids → q.statements = p.statements →
      q.preconditions = p.preconditions → q.loops = p.loops → q.Counted start := by
    intro q hids hs hp hl
    refine ⟨hids ▸ h.le, by rw [hids, hs, hp]; exact h.perm,
      h.ready.advance hs hl (Nat.le_of_eq (hids ▸ rfl)),
      h.isOpen.advance hp (Nat.le_of_eq (hids ▸ rfl))⟩
  have hwaiting : Counted start { p with awaiting := none } := hquiet _ rfl rfl rfl rfl
  have hsaid := Line.admissible_read line.text
  unfold Progress.step
  generalize Line.read line.text = said at hsaid
  cases said with
  | statement kind =>
    cases mode <;>
    · dsimp only
      split
      · exact hwaiting.addStatement hsaid
      · exact hquiet _ rfl rfl rfl rfl
  | precondition label conditions =>
    cases mode with
    | rule => exact hquiet _ rfl rfl rfl rfl
    | action => exact hwaiting.addPrecondition label conditions
  | failure message =>
    cases mode with
    | rule => exact hquiet _ rfl rfl rfl rfl
    | action =>
      dsimp only
      split
      · exact hwaiting.setMessage _ message
      · exact hquiet _ rfl rfl rfl rfl
  | close =>
    have hclosed := h.ready.closeLoop
    cases mode <;> exact ⟨h.le, h.perm, ⟨hclosed.role, hclosed.fresh, hclosed.loops⟩,
      h.isOpen.advance rfl (Nat.le_refl _)⟩
  | _ => cases mode <;> exact hquiet _ rfl rfl rfl rfl

/-- **A reading** counts its identifiers. -/
theorem counted_progress (mode : Mode) (ids : IdSupply) (text : String) :
    (progress mode ids text).Counted ids := by
  unfold progress
  generalize sourceLines text = lines
  have h := counted_initial ids
  generalize ({ ids } : Progress) = p at h
  induction lines generalizing p with
  | nil => exact h
  | cons line lines ih => exact ih _ (h.step mode line)

/-- A line of a rule adds no precondition. -/
theorem preconditions_step_rule (p : Progress) (line : SourceLine) :
    (p.step .rule line).preconditions = p.preconditions := by
  unfold Progress.step
  generalize Line.read line.text = said
  cases said with
  | statement kind =>
    dsimp only
    split <;> rfl
  | _ => rfl

theorem preconditions_progress_rule (ids : IdSupply) (text : String) :
    (progress .rule ids text).preconditions = .empty .preconditions := by
  have hfold : ∀ (lines : List SourceLine) (p : Progress),
      (lines.foldl (Progress.step .rule) p).preconditions = p.preconditions := by
    intro lines
    induction lines with
    | nil => exact fun _ => rfl
    | cons line lines ih => exact fun p => (ih _).trans (p.preconditions_step_rule line)
  exact hfold _ _

end Progress

variable (mode : Mode) (ids : IdSupply) (text : String)

theorem next_le_parse : ids.next ≤ (parse mode ids text).2.next :=
  (Progress.counted_progress mode ids text).le

/-- **The blocks of a document** have all the identifiers that reading it handed out, each once. -/
theorem perm_ids_parse : ((parse mode ids text).1.statements.ids ++
    (parse mode ids text).1.preconditions.ids).Perm (ids.drawn (parse mode ids text).2) :=
  (Progress.counted_progress mode ids text).perm

theorem preconditions_parse_rule :
    (parse .rule ids text).1.preconditions = .empty .preconditions :=
  Progress.preconditions_progress_rule ids text

end Script

end Blockscript
