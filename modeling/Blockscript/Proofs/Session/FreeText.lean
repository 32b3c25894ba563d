import Blockscript.Proofs.Forest.Located
import Blockscript.Proofs.Session.Calls

/-!
# Text lines of calls, read back

What is typed into the text line of a call passes three times through the reading of argument
lists: when it is typed, when the call is written, and when the document is read. Of these only the
first one cuts the text. The main statement, `parse_editFreeText`, follows a text line from the
session into its document and back: the call that is read stands where the edited one stands, and
has the same arguments but for line breaks and blank values.
-/

namespace Blockscript

/-! ## Places in a document that is read -/

/-- A block of an outline stands at its path in the one that reading rebuilds, in normal form. -/
theorem Outline.exists_at?_rebuilt {o : Outline} {path : List ℕ} {b : Block}
    (h : o.at? path = some b) (n : ℕ) :
    ∃ id, (o.rebuilt n).at? path = some ⟨id, b.kind.normal⟩ := by
  have hnormal : (o.mapKind BlockKind.normal).at? path = some ⟨b.id, b.kind.normal⟩ := by
    rw [mapKind_eq_mapBlock, at?_mapBlock, h]
    rfl
  exact exists_at?_of_anonymous_eq (anonymous_numbered n _).symm hnormal

theorem Script.exists_at?_parse {mode : Mode} {header : Header} {S P : Forest}
    (hS : Forest.Built .statements S) (hP : Forest.Built .preconditions P) (ids : IdSupply)
    {path : List ℕ} {b : Block} (h : S.outline.at? path = some b) :
    ∃ id, (parse mode ids (write mode header S P)).1.statements.outline.at? path =
      some ⟨id, b.kind.normal⟩ := by
  obtain ⟨n, hn⟩ := exists_represents_statements hS.fits mode ids.next P.outline
  rw [parse_of_said hS hP (map_read_sourceLines mode header S P), hn.outline_eq]
  exact Outline.exists_at?_rebuilt h n

namespace Session

open Script

variable {mode : Mode} {header : Header} {s : Session} {id : BlockId} {c : Call} {path : List ℕ}

/-- Reading the text of a session finds a block where it stands, in normal form. -/
theorem InStep.exists_at?_parse (h : InStep mode header s) (ids : IdSupply) {b : Block}
    (hb : s.statements.outline.at? path = some b) :
    ∃ id, (parse s.mode ids s.text).1.statements.outline.at? path = some ⟨id, b.kind.normal⟩ := by
  rw [h.mode_eq, h.text_eq]
  exact Script.exists_at?_parse h.statements h.preconditions ids hb

/-! ## The edit -/

/-- A call stands somewhere among the statements. -/
theorem InStep.exists_at? (h : InStep mode header s) (hc : s.call? id = some c) :
    ∃ path, s.statements.outline.at? path = some ⟨id, .call c⟩ := by
  have hget := get?_of_call? hc
  rw [h.statements.represents.get?_eq_find?] at hget
  exact Outline.exists_at? hget

theorem statements_setArgs (hc : s.call? id = some c) (args : List CallArg) :
    (s.setArgs id args).2.statements = s.statements.edited (.update id .args (.args args)) := by
  have hid := contains_of_call? hc
  unfold setArgs setField?
  rw [if_pos hid, Forest.edited, Forest.edit?]
  cases s.statements.update? id .args (.args args) <;> rfl

theorem statements_editFreeText (hc : s.call? id = some c) (raw : String) :
    (s.editFreeText id raw).2.statements =
      s.statements.edited (.update id .args (.args (Arguments.read raw.toList))) := by
  have ht : Session.call? { s with
      calls := s.calls.setFreeText id raw (Arguments.read raw.toList) } id = some c := hc
  rw [editFreeText_of_some hc]
  exact statements_setArgs ht _

/-- An edited call stands where it stood, with the arguments that are read from the text line. -/
theorem InStep.at?_editFreeText (h : InStep mode header s) (hc : s.call? id = some c)
    (hat : s.statements.outline.at? path = some ⟨id, .call c⟩) (raw : String) :
    (s.editFreeText id raw).2.statements.outline.at? path =
      some ⟨id, .call { c with args := Arguments.read raw.toList }⟩ := by
  have hedited := h.statements.represents.edited_update id .args
    (.args (Arguments.read raw.toList))
  rw [statements_editFreeText hc, hedited.outline_eq]
  exact Outline.at?_updated hat .args _

/-! ## The round trip -/

/-- **Text lines are read back.** Whatever was done to a session: after an edit of the text line of
a call, reading the text of the session gives, where the call stands, a call with the arguments that
are read from the line, each spelled. No argument is lost, joined or cut, because cleaning changes
nothing else of a list that was read. -/
theorem parse_editFreeText (start : Start) (ops : List Op)
    (h : (start.session.performAll ops).call? id = some c) (raw : String) (ids : IdSupply) :
    let s := start.session.performAll ops
    let t := (s.editFreeText id raw).2
    let args := Arguments.read raw.toList
    (∃ path id', s.statements.outline.at? path = some ⟨id, .call c⟩ ∧
      t.statements.outline.at? path = some ⟨id, .call { c with args }⟩ ∧
      (parse t.mode ids t.text).1.statements.outline.at? path =
        some ⟨id', .call ⟨String.ofList (Clean.productText c.product),
          String.ofList (Clean.name "method" c.method), args.map Arguments.spelled⟩⟩) ∧
      ∀ text, Clean.args (Arguments.read text) = (Arguments.read text).map Arguments.spelled := by
  intro s t args
  have hs : InStep start.session.mode s.header s := (inStep_start start).performAll ops
  obtain ⟨path, hat⟩ := hs.exists_at? h
  have hedited : t.statements.outline.at? path = some ⟨id, .call { c with args }⟩ :=
    hs.at?_editFreeText h hat raw
  obtain ⟨id', hread⟩ := (hs.editFreeText id raw).exists_at?_parse ids hedited
  refine ⟨⟨path, id', hat, hedited, ?_⟩, Arguments.args_read⟩
  rw [hread, ← Arguments.args_read]
  rfl

/-- A call in a loop. -/
def loopedCall : List Op :=
  [.add .top (.forEach "i" "Order" none), .add (.under ⟨0⟩) (.call ⟨"p", "m", [⟨"a", "1"⟩]⟩)]

/-- A text line with the end of a call in a quoted value, a line break in brackets, and no value for
its last name. -/
def delimitedLine : String := "a: \"x); b: \", c: [1,\n2], d:"

theorem parse_editFreeText_delimitedLine :
    let s := (Session.new .rule { name := "R" }).performAll loopedCall
    let text := (s.editFreeText ⟨1⟩ delimitedLine).2.text
    s.call? ⟨1⟩ = some ⟨"p", "m", [⟨"a", "1"⟩]⟩ ∧
      ∃ path id', (parse .rule .initial text).1.statements.outline.at? path =
        some ⟨id', .call ⟨"p", "m", [⟨"a", "\"x); b: \""⟩, ⟨"c", "[1, 2]"⟩, ⟨"d", "\"\""⟩]⟩⟩ := by
  intro s text
  have h : s.call? ⟨1⟩ = some ⟨"p", "m", [⟨"a", "1"⟩]⟩ := by decide +kernel
  have hargs : (Arguments.read delimitedLine.toList).map Arguments.spelled =
      [⟨"a", "\"x); b: \""⟩, ⟨"c", "[1, 2]"⟩, ⟨"d", "\"\""⟩] := by
    decide +kernel
  obtain ⟨⟨path, id', -, -, hread⟩, -⟩ := parse_editFreeText
    (.opened (.new .rule { name := "R" })) loopedCall h delimitedLine .initial
  rw [hargs] at hread
  exact ⟨h, path, id', hread⟩

end Session

end Blockscript
