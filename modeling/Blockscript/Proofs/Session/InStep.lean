import Blockscript.Proofs.Script.Parsed
import Blockscript.Proofs.Session.Outcomes

/-!
# Sessions in step with their text

A session keeps its mode and its header, its forests are built by edits, and its text is what they
are written as: `InStep` is the invariant. Here it is kept by the operations on the document, one
lemma for each; a session out of step is brought back by writing its text (`Holds.commit`) or by
reading one (`Holds.openText`).
-/

namespace Blockscript.Session

open Script

/-! ## The invariant -/

/-- Whether a session keeps its mode and header and has forests of the right making. -/
structure Holds (mode : Mode) (header : Header) (s : Session) : Prop where
  mode_eq : s.mode = mode
  header_eq : s.header = header
  statements : Forest.Built .statements s.statements
  preconditions : Forest.Built .preconditions s.preconditions

/-- Whether, besides, the text of a session is what its forests are written as. -/
structure InStep (mode : Mode) (header : Header) (s : Session) : Prop
    extends Holds mode header s where
  text_eq : s.text = write mode header s.statements s.preconditions

variable {mode : Mode} {header : Header} {s : Session}

theorem inStep_new (mode : Mode) (header : Header) : InStep mode header (.new mode header) :=
  ⟨⟨rfl, rfl, .empty, .empty⟩, rfl⟩

theorem Holds.regenerate (h : Holds mode header s) : InStep mode header s.regenerate := by
  refine ⟨⟨h.mode_eq, h.header_eq, h.statements, h.preconditions⟩, ?_⟩
  rw [Session.regenerate, h.mode_eq, h.header_eq]

theorem Holds.commit (h : Holds mode header s) : InStep mode header s.commit :=
  have hr := Holds.regenerate (s := { s with status := .dirty }) ⟨h.1, h.2, h.3, h.4⟩
  ⟨⟨hr.mode_eq, hr.header_eq, hr.statements, hr.preconditions⟩, hr.text_eq⟩

theorem Holds.withStatements (h : Holds mode header s) {f : Forest}
    (hf : Forest.Built .statements f) : Holds mode header { s with statements := f } :=
  ⟨h.mode_eq, h.header_eq, hf, h.preconditions⟩

theorem Holds.withPreconditions (h : Holds mode header s) {f : Forest}
    (hf : Forest.Built .preconditions f) : Holds mode header { s with preconditions := f } :=
  ⟨h.mode_eq, h.header_eq, h.statements, hf⟩

theorem Holds.resync (h : Holds mode header s) : InStep mode header s.resync := by
  obtain ⟨hS, hP⟩ := built_parse s.mode s.ids (s.source.getD "")
  exact Holds.regenerate ⟨h.mode_eq, h.header_eq, hS, hP⟩

theorem Holds.openText (h : Holds mode header s) (text : String) :
    InStep mode header (s.openText text) :=
  have hs : Holds mode header (s.setSource text) :=
    ⟨h.mode_eq, h.header_eq, h.statements, h.preconditions⟩
  hs.resync

theorem Holds.setField? (h : Holds mode header s) {id : BlockId} {field : BlockField}
    {value : FieldValue} {s' : Session} (hs : s.setField? id field value = some s') :
    Holds mode header s' := by
  rcases setField?_cases hs with ⟨f, hf, rfl⟩ | ⟨-, f, hf, rfl⟩
  · exact h.withStatements (h.statements.edit (e := .update id field value) hf)
  · exact h.withPreconditions (h.preconditions.edit (e := .update id field value) hf)

theorem Holds.followField (h : Holds mode header s) (id : BlockId) (field : BlockField) :
    Holds mode header (s.followField id field) := by
  unfold Session.followField
  split <;> exact ⟨h.mode_eq, h.header_eq, h.statements, h.preconditions⟩

/-! ## Operations keep the invariant -/

theorem InStep.add (h : InStep mode header s) (place : Place) (kind : BlockKind) :
    InStep mode header (s.add place kind).2 := by
  rcases s.add_cases place kind with hs | ⟨-, f, hf, hs⟩ | ⟨f, hf, hs⟩ <;> rw [hs]
  · exact ⟨⟨h.mode_eq, h.header_eq, h.statements, h.preconditions⟩, h.text_eq⟩
  · have hb := h.preconditions.edit (e := .add place ⟨s.ids.fresh, kind⟩) hf
    exact Holds.commit ⟨h.mode_eq, h.header_eq, h.statements, hb⟩
  · have hb := h.statements.edit (e := .add place ⟨s.ids.fresh, kind⟩) hf
    exact Holds.commit ⟨h.mode_eq, h.header_eq, hb, h.preconditions⟩

theorem InStep.update (h : InStep mode header s) (id : BlockId) (field : BlockField)
    (value : FieldValue) : InStep mode header (s.update id field value).2 := by
  rcases s.update_cases id field value with hs | ⟨t, ht, hs⟩ <;> rw [hs]
  · exact h
  · exact ((h.toHolds.setField? ht).followField id field).commit

theorem InStep.remove (h : InStep mode header s) (id : BlockId) :
    InStep mode header (s.remove id).2 := by
  rcases s.remove_cases id with ⟨-, hs⟩ | ⟨f, hf, hs⟩ | ⟨-, f, hf, hs⟩ <;> rw [hs]
  · exact h
  · have hb := h.statements.edit (e := .remove id) hf
    exact Holds.commit ⟨h.mode_eq, h.header_eq, hb, h.preconditions⟩
  · exact (h.withPreconditions (h.preconditions.edit (e := .remove id) hf)).commit

theorem InStep.reorder (h : InStep mode header s) (active goal : BlockId) :
    InStep mode header (s.reorder active goal).2 := by
  rcases s.reorder_cases active goal with hs | ⟨f, hf, hs⟩ | ⟨f, hf, hs⟩ <;> rw [hs]
  · exact h
  · exact (h.withStatements (h.statements.edit (e := .reorder active goal) hf)).commit
  · exact (h.withPreconditions (h.preconditions.edit (e := .reorder active goal) hf)).commit

end Blockscript.Session
