import Blockscript.Proofs.Script.HeaderRead
import Blockscript.Proofs.Script.Renumbered
import Blockscript.Proofs.Session.Frame

/-!
# Documents opened from their records

A record holds less than the header of its document says: it has no place for the parameters of an
action, and it may lack the trigger of a rule. A session on the record writes the header that the
record holds (`header_written`), so that the document comes back as it was exactly if the record
holds all of its header, and in any case all but that comes back (`openSession_text`).
-/

namespace Blockscript.Definition

open Script Session

/-- Whether a record agrees with the header of its document in what it holds. -/
def Agrees (d : Definition) (m : Header) : Prop :=
  match d with
  | .rule r => m.name = r.name ∧ m.priority = some r.priority ∧
      (r.trigger = none ∨ m.trigger = r.trigger)
  | .action a => m.name = a.name ∧ m.entityType = some a.entityType ∧ m.description = a.description

/-- Whether a record holds all that the header of its document says, or says what is written where
nothing is held. -/
def HoldsAll (d : Definition) (m : Header) : Prop :=
  match d with
  | .rule r => r.trigger ≠ none ∨ m.trigger = some { event := "UPDATE", entity := "Entity" }
  | .action _ => m.parameters = []

/-- What is left of the header of a document: the trigger of a rule is the usual one unless the
record holds it, and an action has no parameters. -/
def headerLeft (d : Definition) (m : Header) : Header :=
  match d with
  | .rule r =>
    { m with
      trigger :=
        if r.trigger = none then some { event := "UPDATE", entity := "Entity" } else m.trigger }
  | .action _ => { m with parameters := [] }

variable {d : Definition} {m : Header}

theorem headerLeft_eq_self_iff (d : Definition) (m : Header) :
    d.headerLeft m = m ↔ d.HoldsAll m := by
  obtain ⟨name, priority, trigger, entityType, description, parameters⟩ := m
  cases d with
  | rule r =>
    by_cases h : r.trigger = none
    · simp [headerLeft, HoldsAll, h, eq_comm]
    · simp [headerLeft, HoldsAll, h]
  | action a => simp [headerLeft, HoldsAll, eq_comm]

/-- The header of a record can be read back, since it has no parameters. -/
theorem readable_header (d : Definition) : d.header.Readable := by
  cases d <;> exact fun _ hp => absurd hp List.not_mem_nil

/-- **The header that is written** for a record is what is left of a written header with which the
record agrees. -/
theorem header_written (h : d.Agrees m) (hm : m.written d.mode = m) :
    d.header.written d.mode = d.headerLeft m := by
  rw [← hm]
  cases d with
  | rule r =>
    obtain ⟨hname, hpriority, htrigger⟩ := h
    simp only [headerLeft, mode, header, Header.written, hname, hpriority]
    rcases ht : r.trigger with _ | t
    · rw [if_pos rfl, Trigger.written]
    · have hne : some t ≠ none := Option.some_ne_none t
      rw [htrigger.resolve_left (ht ▸ hne), ht, if_neg hne]
  | action a =>
    obtain ⟨hname, hentity, hdescription⟩ := h
    simp only [headerLeft, mode, header, Header.written, hname, hentity, hdescription,
      List.map_nil]

/-- After operations that leave the header alone, a session writes that of the record. -/
theorem inStep_performAll (d : Definition) {ops : List Op} (h : ∀ e ∈ ops, e.keepsHeader = true) :
    InStep d.mode d.header (d.openSession.performAll ops) :=
  have hopen : InStep d.mode d.header d.openSession := (inStep_new d.mode d.header).openText d.text
  hopen.performAll_of_keepsHeader h

theorem header?_performAll (d : Definition) {ops : List Op}
    (h : ∀ e ∈ ops, e.keepsHeader = true) :
    header? d.mode (d.openSession.performAll ops).text = some (d.header.written d.mode) := by
  rw [(inStep_performAll d h).text_eq, header?_write d.mode d.readable_header]

/-- What a session on a record writes first. -/
theorem text_openSession (d : Definition) (ids : IdSupply) : d.openSession.text =
    write d.mode d.header (parse d.mode ids d.text).1.statements
      (parse d.mode ids d.text).1.preconditions :=
  write_eq_of_blocksAlike (alike_parse d.mode ids .initial d.text).toBlocksAlike
    (.parse d.mode ids d.text) (.parse d.mode .initial d.text) d.mode d.header

/-- **A document opened from its record.** Let the text be just what is written for its header and
its blocks, and let the record agree with the header. Then the session writes the same text but for
what the record does not hold, which is the same text exactly if the record holds all. However the
blocks are edited, the header is the one that is left. -/
theorem openSession_text (d : Definition) (m : Header) (ids : IdSupply)
    (hm : header? d.mode d.text = some m) (hagrees : d.Agrees m)
    (hcanonical : write d.mode m (parse d.mode ids d.text).1.statements
      (parse d.mode ids d.text).1.preconditions = d.text) :
    d.openSession.text = write d.mode (d.headerLeft m) (parse d.mode ids d.text).1.statements
        (parse d.mode ids d.text).1.preconditions ∧
      (d.openSession.text = d.text ↔ d.HoldsAll m) ∧
      ∀ ops : List Op, (∀ e ∈ ops, e.keepsHeader = true) →
        header? d.mode (d.openSession.performAll ops).text = some (d.headerLeft m) := by
  have hwritten : m.written d.mode = m := by
    have hread := header?_write d.mode (readable_header? hm)
      (parse d.mode ids d.text).1.statements (parse d.mode ids d.text).1.preconditions
    rw [hcanonical, hm] at hread
    exact (Option.some.inj hread).symm
  have hleft := header_written hagrees hwritten
  have htext : d.openSession.text = write d.mode (d.headerLeft m)
      (parse d.mode ids d.text).1.statements (parse d.mode ids d.text).1.preconditions := by
    rw [← hleft, write_written]
    exact text_openSession d ids
  have hheader : ∀ ops : List Op, (∀ e ∈ ops, e.keepsHeader = true) →
      header? d.mode (d.openSession.performAll ops).text = some (d.headerLeft m) := by
    intro ops hops
    rw [header?_performAll d hops, hleft]
  refine ⟨htext, ?_, hheader⟩
  rw [← headerLeft_eq_self_iff]
  constructor
  · intro hsame
    have hopened : header? d.mode d.openSession.text = some (d.headerLeft m) := hheader [] nofun
    rw [hsame, hm] at hopened
    exact (Option.some.inj hopened).symm
  · intro hsame
    rw [htext, hsame, hcanonical]

/-- The record of an action with a description. -/
def submit : Definition := .action
  { name := "submit"
    text := "ACTION Order.submit \x7b\n    DESCRIPTION: \"Sends it\"\n\n    EFFECT \x7b\n" ++
      "        SET this.status = \"sent\";\n    \x7d\n\x7d"
    entityType := "Order"
    description := some "Sends it" }

theorem openSession_text_submit : submit.openSession.text = submit.text :=
  (openSession_text submit
    { name := "submit", entityType := some "Order", description := some "Sends it" } .initial
    (by decide +kernel) ⟨rfl, rfl, rfl⟩ (by decide +kernel)).2.1.2 rfl

/-- The record of an action with a parameter. -/
def approve : Definition := .action
  { name := "approve"
    text := "ACTION Order.approve(note: String) \x7b\n\n    EFFECT \x7b\n" ++
      "        SET this.note = note;\n    \x7d\n\x7d"
    entityType := "Order" }

/-- The header of that action. -/
def approveHeader : Header :=
  (Header.action "approve" "Order").withParameter { name := "note", type := "String" }

/-- The record of a rule that does not hold the trigger. -/
def created : Definition := .rule
  { name := "Demo"
    text := "RULE Demo PRIORITY 5 \x7b\n    ON CREATE(Order)\n\n\x7d"
    priority := 5 }

/-- The header of that rule. -/
def createdHeader : Header := .rule "Demo" 5 { event := "CREATE", entity := "Order" }

/-- Neither of the two texts is written again. -/
theorem openSession_text_ne :
    (header? approve.mode approve.text = some approveHeader ∧ approve.Agrees approveHeader ∧
        write approve.mode approveHeader (parse approve.mode .initial approve.text).1.statements
          (parse approve.mode .initial approve.text).1.preconditions = approve.text ∧
        approve.openSession.text ≠ approve.text) ∧
      header? created.mode created.text = some createdHeader ∧ created.Agrees createdHeader ∧
        write created.mode createdHeader (parse created.mode .initial created.text).1.statements
          (parse created.mode .initial created.text).1.preconditions = created.text ∧
        created.openSession.text ≠ created.text := by
  have happrove : approve.Agrees approveHeader := ⟨rfl, rfl, rfl⟩
  have hcreated : created.Agrees createdHeader := ⟨rfl, rfl, .inl rfl⟩
  exact ⟨⟨by decide +kernel, happrove, by decide +kernel, by decide +kernel⟩,
    by decide +kernel, hcreated, by decide +kernel, by decide +kernel⟩

end Blockscript.Definition
