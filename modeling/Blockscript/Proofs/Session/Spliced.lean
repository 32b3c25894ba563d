import Blockscript.Proofs.Script.Spliced
import Blockscript.Proofs.Session.Run

/-!
# The text changes where the edit was

Whatever was done to a session before, an edit of its blocks changes the lines of its text at one
position (`editsInPlace_performAll`): a replaced field changes the lines of its block, a new block
brings its own lines, and a removed block takes away its lines and those of the blocks below it.
-/

namespace Blockscript

open Script

theorem length_preconditionLines {kind : BlockKind} (h : kind.tag = .precondition) :
    (preconditionLines kind).length = 1 ∨ (preconditionLines kind).length = 2 := by
  cases kind with
  | precondition label conditions message =>
    rw [preconditionLines, failureLines]
    split
    · exact .inl rfl
    · exact .inr rfl
  | _ => cases h

namespace Session

/-- The lines of the text of a session. -/
def textLines (s : Session) : List (List Char) := Text.split '\n' s.text.toList

/-- Whether the edits of the blocks of a session change the lines of its text where the edited block
stands only. A block stands as many levels deep as it is nested, below the depth of all
statements. -/
structure EditsInPlace (s : Session) : Prop where
  /-- A replaced field of a statement changes the line of the statement, which for a loop is the one
  above its body; a replaced field of a precondition changes the lines of the precondition. -/
  update : ∀ {id : BlockId} {field : BlockField} {value : FieldValue},
    (s.update id field value).1 = true →
      (∃ k b line line', s.statements.get? id = some b ∧ (k, b) ∈ s.statements.walk ∧
        statementLine b.kind = some line ∧
        statementLine (b.kind.withField field value) = some line' ∧
        Spliced s.textLines (s.update id field value).2.textLines
          [indented (s.mode.depth + k) line] [indented (s.mode.depth + k) line']) ∨
      s.statements.get? id = none ∧ ∃ b, s.preconditions.get? id = some b ∧
        Spliced s.textLines (s.update id field value).2.textLines
          (s.mode.preconditionLines b.kind)
          (s.mode.preconditionLines (b.kind.withField field value))
  /-- A new statement brings one line, or as a loop the three lines of an empty one; a new
  precondition brings one line, or two with a message. -/
  add : ∀ {place : Place} {kind : BlockKind} {id : BlockId}, (s.add place kind).1 = some id →
    (∃ k line, (k, ⟨id, kind⟩) ∈ (s.add place kind).2.statements.walk ∧
      statementLine kind = some line ∧
      Spliced s.textLines (s.add place kind).2.textLines []
        (if kind.isContainer then
          [indented (s.mode.depth + k) line, [], indented (s.mode.depth + k) ['}']]
        else [indented (s.mode.depth + k) line])) ∨
    kind.tag = .precondition ∧
      ((preconditionLines kind).length = 1 ∨ (preconditionLines kind).length = 2) ∧
      Spliced s.textLines (s.add place kind).2.textLines [] (preconditionLines kind)
  /-- A removed statement takes away the lines that it and the blocks below it are written in, a
  removed precondition its lines. -/
  remove : ∀ {id : BlockId}, (s.remove id).1 = true →
    (∃ k b below, b.id = id ∧ (k, b) ∈ s.statements.walk ∧
      s.statements.outline.below? id = some below ∧
      Spliced s.textLines (s.remove id).2.textLines
        (statementLines (s.mode.depth + k) (.cons b below .nil)) []) ∨
    ∃ b, s.preconditions.get? id = some b ∧
      Spliced s.textLines (s.remove id).2.textLines (s.mode.preconditionLines b.kind) []

variable {mode : Mode} {header : Header} {s : Session} {id : BlockId}

theorem InStep.textLines_eq (h : InStep mode header s) :
    s.textLines = lines mode header s.statements s.preconditions := by
  rw [textLines, h.text_eq, split_write]

theorem forests_update {t : Session} {field : BlockField} {value : FieldValue}
    (h : s.setField? id field value = some t) :
    (s.update id field value).2.statements = t.statements ∧
      (s.update id field value).2.preconditions = t.preconditions := by
  rw [update, h]
  dsimp only
  unfold followField
  split <;> exact ⟨rfl, rfl⟩

/-- **A session in step** is edited in place. -/
theorem InStep.editsInPlace (h : InStep s.mode header s) : s.EditsInPlace where
  update {id field value} hdone := by
    rcases s.update_cases id field value with hs | ⟨t, hset, -⟩
    · rw [hs] at hdone
      cases hdone
    · obtain ⟨hS, hP⟩ := forests_update hset
      rw [(h.update id field value).textLines_eq, h.textLines_eq, hS, hP]
      rcases setField?_cases hset with ⟨f, hf, rfl⟩ | ⟨hno, f, hf, rfl⟩
      · exact .inl (lines_update h.statements hf s.mode header s.preconditions)
      · exact .inr ⟨Forest.get?_eq_none_iff.2 hno,
          lines_updatePrecondition h.preconditions hf s.mode header s.statements⟩
  add {place kind id} hdone := by
    rw [(h.add place kind).textLines_eq, h.textLines_eq]
    rcases s.add_cases place kind with hs | ⟨hmode, f, hf, hs⟩ | ⟨f, hf, hs⟩ <;> rw [hs] at hdone ⊢
    · cases hdone
    · obtain rfl := Option.some.inj hdone
      have htakes := Forest.takes_of_admits (Forest.add?_eq_some_iff.1 hf).2.1
      rw [h.preconditions.role_eq] at htakes
      have htag : kind.tag = .precondition := beq_iff_eq.1 htakes
      have hsplice := lines_addPrecondition h.preconditions hf s.mode header s.statements
      rw [hmode] at hsplice ⊢
      exact .inr ⟨htag, length_preconditionLines htag, hsplice⟩
    · obtain rfl := Option.some.inj hdone
      exact .inl (lines_add h.statements hf s.mode header s.preconditions)
  remove {id} hdone := by
    rw [(h.remove id).textLines_eq, h.textLines_eq]
    rcases s.remove_cases id with ⟨-, hs⟩ | ⟨f, hf, hs⟩ | ⟨-, f, hf, hs⟩ <;> rw [hs] at hdone ⊢
    · cases hdone
    · exact .inl (lines_remove h.statements hf s.mode header s.preconditions)
    · exact .inr (lines_removePrecondition h.preconditions hf s.mode header s.statements)

/-- **Edits in place.** Whatever was done to a session, its edits change the lines of its text where
the edited block stands, and no other line. -/
theorem editsInPlace_performAll (start : Start) (ops : List Op) :
    (start.session.performAll ops).EditsInPlace := by
  have h := (inStep_start start).performAll ops
  exact InStep.editsInPlace (by rwa [h.mode_eq])

/-- A loop in a loop brings its three lines, between what stood above and below. -/
example :
    let s := (Session.new .rule { name := "R" }).performAll
      [.add .top (.forEach "i" "Order" none), .add .top (.set "a" "1")]
    let t := (s.add (.under ⟨0⟩) (.forEach "j" "Item" none)).2
    s.textLines.map String.ofList = ["RULE R PRIORITY 100 \x7b", "    ON UPDATE(Entity)", "",
        "    FOR (i: Order) \x7b", ""] ++ ["    \x7d", "    SET a = 1;", "\x7d"] ∧
      t.textLines.map String.ofList = ["RULE R PRIORITY 100 \x7b", "    ON UPDATE(Entity)", "",
        "    FOR (i: Order) \x7b", ""] ++ ["        FOR (j: Item) \x7b", "", "        \x7d"] ++
        ["    \x7d", "    SET a = 1;", "\x7d"] := by
  decide +kernel

end Session

end Blockscript
