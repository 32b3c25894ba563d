import Blockscript.Proofs.Script.Parsed

/-!
# Round trips

Reading what was written gives the document in normal form and skips nothing (`parse_write`), for
any header and any forests that outlines and edits lead to. Writing what was read gives a text that
another reading and writing leave as it is (`formatted_formatted`).
-/

namespace Blockscript

/-- The forest as a document says it. -/
def Forest.normal (f : Forest) : Forest := f.mapKind BlockKind.normal

namespace Script

theorem skipped_rebuilt (mode : Mode) (n : ℕ) (o q : Outline) :
    (rebuilt mode n o q).skipped = [] := by
  cases mode <;> rfl

theorem sameStructure_normal {f g : Forest} {o : Outline} {n : ℕ} (hf : f.Represents o)
    (hg : g.Represents (o.rebuilt n)) : g.sameStructure f.normal = true := by
  rw [Forest.normal, hg.sameStructure_iff (hf.mapKind BlockKind.tag_normal), Outline.rebuilt,
    Outline.anonymous_numbered]

/-- **Reading what was written** skips no line and gives the statements in normal form, nested and
ordered as they were; and in an action the preconditions in normal form, in a rule none. -/
theorem parse_write (mode : Mode) (header : Header) {S P : Forest}
    (hS : Forest.Built .statements S) (hP : Forest.Built .preconditions P) (ids : IdSupply) :
    (parse mode ids (write mode header S P)).1.skipped = [] ∧
      (parse mode ids (write mode header S P)).1.statements.sameStructure S.normal = true ∧
      match mode with
      | .rule => (parse mode ids (write mode header S P)).1.preconditions = .empty .preconditions
      | .action =>
        (parse mode ids (write mode header S P)).1.preconditions.sameStructure P.normal = true := by
  rw [parse_of_said hS hP (map_read_sourceLines mode header S P)]
  obtain ⟨m, hm⟩ := exists_represents_statements hS.fits mode ids.next P.outline
  refine ⟨skipped_rebuilt mode _ _ _, sameStructure_normal hS.represents hm, ?_⟩
  cases mode with
  | rule => rfl
  | action => exact sameStructure_normal hP.represents (represents_preconditions hP.fits _ _)

/-- A loop around a call, with delimiters in every field. -/
def delimiters : Forest :=
  .ofOutline .statements
    (.cons ⟨⟨0⟩, .forEach "i t) \x7b" "Order:" (some " a WHERE b) \x7b // ")⟩
      (.leaf ⟨⟨1⟩, .call ⟨"\"p\".q;", "m(", [⟨"x y", "1), b: \"\x7d\n"⟩, ⟨"", " "⟩]⟩⟩) .nil)

/-- A precondition whose message is quoted and breaks the line. -/
def quotedMessage : Forest :=
  .ofOutline .preconditions
    (.leaf ⟨⟨2⟩, .precondition "EFFECT \x7b" "\x7d" (some " \"no\"; \\\n\x7d")⟩)

/-- A header with a parenthesis in its name and a line break in its entity. -/
def splitHeader : Header := .action "a(b" "E \x7b\n\x7d"

theorem parse_write_delimiters :
    Forest.Built .statements delimiters ∧ Forest.Built .preconditions quotedMessage ∧
      (parse .action ⟨7⟩ (write .action splitHeader delimiters quotedMessage)).1.skipped = [] ∧
      (parse .action ⟨7⟩ (write .action splitHeader delimiters
        quotedMessage)).1.statements.sameStructure delimiters.normal = true ∧
      (parse .action ⟨7⟩ (write .action splitHeader delimiters
        quotedMessage)).1.preconditions.sameStructure quotedMessage.normal = true :=
  ⟨.ofOutline _, .ofOutline _,
    parse_write .action splitHeader (.ofOutline _) (.ofOutline _) ⟨7⟩⟩

/-! ## From text to text -/

/-- A document read from a text and written. -/
def formatted (mode : Mode) (header : Header) (ids : IdSupply) (text : String) : String :=
  write mode header (parse mode ids text).1.statements (parse mode ids text).1.preconditions

theorem formatted_formatted (mode : Mode) (header : Header) (ids ids' : IdSupply) (text : String) :
    formatted mode header ids' (formatted mode header ids text) =
      formatted mode header ids text := by
  obtain ⟨hS, hP⟩ := built_parse mode ids text
  exact (write_parse_eq_iff hS hP (map_read_sourceLines mode header _ _) ids').2
    (settled_parse mode ids text)

theorem skipped_formatted (mode : Mode) (header : Header) (ids ids' : IdSupply) (text : String) :
    (parse mode ids' (formatted mode header ids text)).1.skipped = [] := by
  obtain ⟨hS, hP⟩ := built_parse mode ids text
  rw [formatted, parse_of_said hS hP (map_read_sourceLines mode header _ _), skipped_rebuilt]

end Script

end Blockscript
