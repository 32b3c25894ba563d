import Blockscript.Proofs.Session.InStep
import Blockscript.Session.Snapshot
import Blockscript.Store.Definition

/-!
# Runs of a session

`Op` is all that a host may do to a session, `perform` does it, and `Opening` are the ways a session
comes about. Whatever is done, the text stays in step with the blocks (`InStep.perform`).
-/

namespace Blockscript.Session

open Script

/-! ## Operations -/

/-- What a host may do to a session. -/
inductive Op where
  | add (place : Place) (kind : BlockKind)
  | update (id : BlockId) (field : BlockField) (value : FieldValue)
  | remove (id : BlockId)
  | reorder (active goal : BlockId)
  | setHeader (header : Header)
  | openText (text : String)
  | setSource (text : String)
  | resync
  | select (id : BlockId) (product method : String)
  | deliver (ticket : Selection) (answer : Except SchemaError (List InputField))
  | editArgument (id : BlockId) (name value : String)
  | editFreeText (id : BlockId) (raw : String)
  | setManual (id : BlockId) (manual : Bool)
  | listen
  deriving Repr

/-- The session after an operation. -/
def perform (s : Session) : Op → Session
  | .add place kind => (s.add place kind).2
  | .update id field value => (s.update id field value).2
  | .remove id => (s.remove id).2
  | .reorder active goal => (s.reorder active goal).2
  | .setHeader header => s.setHeader header
  | .openText text => s.openText text
  | .setSource text => s.setSource text
  | .resync => s.resync
  | .select id product method => (s.select id product method).2
  | .deliver ticket answer => (s.deliver ticket answer).2
  | .editArgument id name value => (s.editArgument id name value).2
  | .editFreeText id raw => (s.editFreeText id raw).2
  | .setManual id manual => s.setManual id manual
  | .listen => s.listen

/-- The session after operations one after the other. -/
def performAll (s : Session) (ops : List Op) : Session := ops.foldl perform s

/-- The ways to open a session. -/
inductive Opening where
  | new (mode : Mode) (header : Header)
  | build (mode : Mode) (header : Header) (listeners : Nat) (source : Option String)
  | definition (d : Definition)
  deriving Repr

/-- The session as it is opened. -/
def Opening.session : Opening → Session
  | .new mode header => .new mode header
  | .build mode header listeners source => .build mode header listeners source
  | .definition d => d.openSession

/-- Where a session comes from: it is opened, or restored from a snapshot. -/
inductive Start where
  | opened (opening : Opening)
  | restored (n : Snapshot)
  deriving Repr

/-- The session at its start. -/
def Start.session : Start → Session
  | .opened opening => opening.session
  | .restored n => .restore n

variable {mode : Mode} {header : Header} {s : Session}

theorem performAll_append (s : Session) (ops later : List Op) :
    s.performAll (ops ++ later) = (s.performAll ops).performAll later := List.foldl_append

/-! ## Staying in step -/

/-- What does not touch the document keeps it in step. -/
theorem InStep.of_eq (h : InStep mode header s) {t : Session} (hmode : t.mode = s.mode)
    (hheader : t.header = s.header) (hS : t.statements = s.statements)
    (hP : t.preconditions = s.preconditions) (htext : t.text = s.text) : InStep mode header t :=
  ⟨⟨hmode.trans h.mode_eq, hheader.trans h.header_eq, hS ▸ h.statements, hP ▸ h.preconditions⟩,
    by rw [htext, hS, hP, h.text_eq]⟩

theorem InStep.setHeader (h : InStep mode header s) (header' : Header) :
    InStep mode (s.setHeader header').header (s.setHeader header') := by
  rw [Session.setHeader]
  split
  · rwa [h.header_eq]
  · have hs : Holds mode header' { s with header := header' } :=
      ⟨h.mode_eq, rfl, h.statements, h.preconditions⟩
    exact hs.regenerate.of_eq rfl rfl rfl rfl rfl

theorem InStep.setArgs (h : InStep mode header s) (id : BlockId) (args : List CallArg) :
    InStep mode header (s.setArgs id args).2 := by
  rcases s.setArgs_cases id args with hs | ⟨t, ht, hs⟩
  · rwa [hs]
  · rw [hs]
    exact (h.toHolds.setField? ht).commit

theorem InStep.retarget (h : InStep mode header s) (id : BlockId) (product method : String) :
    InStep mode header (s.retarget id product method) := by
  rcases retarget_cases h.toHolds (fun hs => hs.setField?) product method with hs | ⟨t, ht, hs⟩
  · rwa [hs]
  · rw [hs]
    exact ht.commit

theorem InStep.select (h : InStep mode header s) (id : BlockId) (product method : String) :
    InStep mode header (s.select id product method).2 := by
  rcases hc : s.call? id with _ | c
  · rwa [select_of_none hc]
  · rw [select_of_some hc]
    exact (h.retarget id product method).of_eq rfl rfl rfl rfl rfl

theorem InStep.editArgument (h : InStep mode header s) (id : BlockId) (name value : String) :
    InStep mode header (s.editArgument id name value).2 := by
  rw [Session.editArgument]
  split
  · exact h
  · exact h.setArgs id _

theorem InStep.editFreeText (h : InStep mode header s) (id : BlockId) (raw : String) :
    InStep mode header (s.editFreeText id raw).2 := by
  rw [Session.editFreeText]
  split
  · exact h
  · have ht : InStep mode header { s with
        calls := s.calls.setFreeText id raw (Arguments.read raw.toList) } :=
      h.of_eq rfl rfl rfl rfl rfl
    exact ht.setArgs id _

theorem InStep.setManual (h : InStep mode header s) (id : BlockId) (manual : Bool) :
    InStep mode header (s.setManual id manual) := by
  rw [Session.setManual]
  split
  · exact h
  · exact h.of_eq rfl rfl rfl rfl rfl

/-- **An operation** keeps a session in step; only another header changes what it is in step
with. -/
theorem InStep.perform (h : InStep mode header s) (e : Op) :
    InStep mode (s.perform e).header (s.perform e) := by
  have hsame : ∀ {t : Session}, InStep mode header t → InStep mode t.header t := fun ht => by
    rwa [ht.header_eq]
  cases e with
  | add place kind => exact hsame (h.add place kind)
  | update id field value => exact hsame (h.update id field value)
  | remove id => exact hsame (h.remove id)
  | reorder active goal => exact hsame (h.reorder active goal)
  | setHeader header' => exact h.setHeader header'
  | openText text => exact hsame (h.openText text)
  | setSource text => exact hsame (h.of_eq rfl rfl rfl rfl rfl)
  | resync => exact hsame h.resync
  | select id product method => exact hsame (h.select id product method)
  | deliver ticket answer => exact hsame (h.of_eq rfl rfl rfl rfl rfl)
  | editArgument id name value => exact hsame (h.editArgument id name value)
  | editFreeText id raw => exact hsame (h.editFreeText id raw)
  | setManual id manual => exact hsame (h.setManual id manual)
  | listen => exact hsame (h.of_eq rfl rfl rfl rfl rfl)

/-- **A restored session** is in step. -/
theorem inStep_restore (n : Snapshot) : InStep n.mode n.header (.restore n) :=
  have hn : Holds n.mode n.header { Session.new n.mode n.header with
      statements := .ofOutline .statements n.statements
      preconditions := .ofOutline .preconditions n.preconditions } :=
    ⟨rfl, rfl, .ofOutline _, .ofOutline _⟩
  hn.regenerate.of_eq rfl rfl rfl rfl rfl

theorem inStep_opening (opening : Opening) :
    InStep opening.session.mode opening.session.header opening.session := by
  cases opening with
  | new mode header => exact inStep_new mode header
  | build mode header listeners source =>
    have hnew : InStep mode header { Session.new mode header with
        heard := List.replicate listeners [] } :=
      (inStep_new mode header).of_eq rfl rfl rfl rfl rfl
    cases source with
    | none => exact hnew
    | some text => exact hnew.openText text
  | definition d => exact (inStep_new d.mode d.header).openText d.text

theorem InStep.performAll (h : InStep mode header s) (ops : List Op) :
    InStep mode (s.performAll ops).header (s.performAll ops) := by
  induction ops generalizing header s with
  | nil => exact h.header_eq ▸ h
  | cons e ops ih => exact ih (h.perform e)

theorem inStep_start (start : Start) :
    InStep start.session.mode start.session.header start.session := by
  cases start with
  | opened opening => exact inStep_opening opening
  | restored n => exact inStep_restore n

end Blockscript.Session
