import Blockscript.Proofs.Arguments.Separators
import Blockscript.Proofs.Script.Layout

/-!
# Text in double quotes

A message and a description stand in double quotes behind a keyword (`Line.quoted`). Reading takes
the last quote of the line for the closing one. No quote before it stands alone (`literal_escape`),
so a scan from the left closes the text at the same place, whatever the text ends with. The header
of an action is what the first line of each kind says (`header?_of_first`), and the main statement,
`quoted_decodes`, is that these lines say the text that was escaped.
-/

namespace Blockscript

open Text

/-- An escaped text may stand between two double quotes. -/
theorem Arguments.literal_escape (s : List Char) : Arguments.Literal (escape s) := by
  induction s with
  | nil => exact .nil
  | cons c s ih =>
    rw [escape]
    split
    · exact ih.escaped c
    · rename_i hc
      obtain ⟨hbackslash, hquote⟩ := not_or.1 hc
      exact ih.char hquote hbackslash

/-! ## Lines with a quoted text -/

namespace Line

/-- A keyword and a text in double quotes. -/
def quoted (keyword text : String) : List Char :=
  keyword.toList ++ ": \"".toList ++ escape text.toList ++ ['"']

theorem read_quoted_message (text : String) : read (quoted "ON_FAILURE" text) = .failure text := by
  have hread : readFailure (quoted "ON_FAILURE" text) = some (.failure text) := by
    have h := readFailure_written text.toList
    rwa [String.ofList_toList] at h
  rw [read, if_neg (by simp [quoted]), hread]
  rfl

theorem read_quoted_description (text : String) :
    read (quoted "DESCRIPTION" text) = .descriptionHeader text := by
  have hread : readDescription (quoted "DESCRIPTION" text) = some (.descriptionHeader text) := by
    have h := readDescription_written text.toList
    rwa [String.ofList_toList] at h
  rw [read, if_neg (by simp [quoted]), hread]
  rfl

variable {keyword text : String}

theorem tight_quoted (hk : IsWordOf isName keyword.toList) : Tight (quoted keyword text) where
  head := by
    rw [quoted, List.append_assoc, List.append_assoc]
    exact isBlank_head?_append hk.inline_name.toTight hk.ne_nil _
  last c hc := by
    rw [quoted, List.getLast?_concat] at hc
    rw [← Option.some.inj hc]
    decide

theorem newline_not_mem_quoted (hk : IsWordOf isName keyword.toList) (ht : '\n' ∉ text.toList) :
    '\n' ∉ quoted keyword text := by
  have hescape : ∀ c ∈ escape text.toList, c ≠ '\n' :=
    forall_mem_escape (by decide) fun c hc h => ht (h ▸ hc)
  have hall : ∀ c ∈ quoted keyword text, c ≠ '\n' := by
    simp only [quoted, List.forall_mem_append]
    exact ⟨⟨⟨fun c hc h => hk.inline_name.no_break c hc (.inr h), by decide⟩, hescape⟩, by decide⟩
  exact fun hm => hall '\n' hm rfl

/-- The line is a line of its own. -/
theorem sourceLines_quoted (hk : IsWordOf isName keyword.toList) (ht : '\n' ∉ text.toList) :
    sourceLines (String.ofList (quoted keyword text)) = [⟨1, quoted keyword text⟩] := by
  have hstart : ∃ c ∈ (quoted keyword text).head?, c ≠ '/' := by
    obtain ⟨c, s, hs⟩ := List.exists_cons_of_ne_nil hk.ne_nil
    have hslash : '/' ∉ c :: s := hs ▸ hk.not_mem (by decide)
    rw [quoted, hs]
    exact ⟨c, rfl, (List.ne_of_not_mem_cons hslash).symm⟩
  rw [sourceLines, String.toList_ofList, split_of_not_mem (newline_not_mem_quoted hk ht),
    SourceLine.numbered, (tight_quoted hk).trim_eq, if_neg (not_blank_or_comment hstart)]
  rfl

/-! ## First lines -/

/-- A blank line or a comment says nothing. -/
theorem read_of_not_isCode {s : List Char} (h : ¬ isCode s = true) : read s = .other := by
  have hs : s = [] ∨ ['/', '/'].isPrefixOf s = true := by
    by_contra hs
    exact h (decide_eq_true hs)
  rcases hs with rfl | hs
  · rfl
  · obtain ⟨r, rfl⟩ := List.isPrefixOf_iff_prefix.1 hs
    rfl

/-- What the opening line of an action says. -/
def action? : Line → Option (String × String × List Parameter)
  | .actionHeader entityType name parameters => some (entityType, name, parameters)
  | _ => none

/-- What a description line says. -/
def description? : Line → Option String
  | .descriptionHeader text => some text
  | _ => none

end Line

namespace Script

open Line

theorem actionLine?_eq_findSome? (ls : List Line) : actionLine? ls = ls.findSome? action? := by
  induction ls with
  | nil => rfl
  | cons l ls ih =>
    cases l with
    | actionHeader => rfl
    | _ => exact ih

theorem descriptionLine?_eq_findSome? (ls : List Line) :
    descriptionLine? ls = ls.findSome? description? := by
  induction ls with
  | nil => rfl
  | cons l ls ih =>
    cases l with
    | descriptionHeader => rfl
    | _ => exact ih

/-- Whether a text has a line, blanks at its ends aside, and no line before it says what `f` looks
for. -/
def FirstLine {α : Type} (f : Line → Option α) (text : String) (line : List Char) : Prop :=
  ∃ before after, (split '\n' text.toList).map trim = before ++ line :: after ∧
    ∀ l ∈ before, f (read l) = none

variable {α : Type} {f : Line → Option α} {text : String} {line : List Char}

theorem findSome?_filter_isCode (hf : f .other = none) (ls : List (List Char)) :
    (ls.filter isCode).findSome? (f ∘ read) = ls.findSome? (f ∘ read) := by
  induction ls with
  | nil => rfl
  | cons l ls ih =>
    by_cases hl : isCode l = true
    · rw [List.filter_cons_of_pos hl, List.findSome?_cons, List.findSome?_cons, ih]
    · have hnone : (f ∘ read) l = none := (congrArg f (read_of_not_isCode hl)).trans hf
      rw [List.filter_cons_of_neg hl, List.findSome?_cons, hnone, ih]

/-- The first line of a kind is also the first among the lines that are read. -/
theorem FirstLine.findSome?_eq (h : FirstLine f text line) (hf : f .other = none) {a : α}
    (ha : f (read line) = some a) :
    ((sourceLines text).map (Line.read ·.text)).findSome? f = some a := by
  obtain ⟨before, after, hsplit, hbefore⟩ := h
  rw [map_read_sourceLines_eq, List.findSome?_map, codeLines, findSome?_filter_isCode hf, hsplit]
  exact List.findSome?_eq_some_iff.2 ⟨before, line, after, rfl, ha, hbefore⟩

/-- **The header of an action** is what its first action line and first description line say. -/
theorem header?_of_first {action : List Char} {entityType name description : String}
    {parameters : List Parameter} (haction : FirstLine action? text action)
    (hopening : read action = .actionHeader entityType name parameters)
    (hline : FirstLine description? text line)
    (hdescribes : read line = .descriptionHeader description) :
    header? .action text =
      some
        { name
          entityType := some entityType
          description := some description
          parameters } := by
  have hopens : action? (read action) = some (entityType, name, parameters) :=
    congrArg action? hopening
  have htells : description? (read line) = some description := congrArg description? hdescribes
  unfold header?
  dsimp only
  rw [actionLine?_eq_findSome?, descriptionLine?_eq_findSome?, haction.findSome?_eq rfl hopens,
    hline.findSome?_eq rfl htells]
  rfl

/-- **Quoted text** is read as the text that was escaped. Escaping is undone and leaves no double
quote that stands alone, whatever backslashes, quotes and semicolons the text holds or ends with.
Behind a keyword the text takes one line. The line of a message says the text; and if the first
description line of a document gives the text, the header of an action has it, beside what the
first action line says. -/
theorem quoted_decodes (s : String) (hs : '\n' ∉ s.toList) :
    unescape (escape s.toList) = s.toList ∧
      Arguments.Literal (escape s.toList) ∧
      (∀ keyword ∈ ["ON_FAILURE", "DESCRIPTION"],
        sourceLines (String.ofList (quoted keyword s)) = [⟨1, quoted keyword s⟩]) ∧
      read (quoted "ON_FAILURE" s) = .failure s ∧
      ∀ (text : String) (action : List Char) (entityType name : String)
          (parameters : List Parameter),
        FirstLine action? text action →
        read action = .actionHeader entityType name parameters →
        FirstLine description? text (quoted "DESCRIPTION" s) →
        header? .action text =
          some { name, entityType := some entityType, description := some s, parameters } := by
  refine ⟨unescape_escape s.toList, Arguments.literal_escape s.toList, ?_, read_quoted_message s,
    fun text action entityType name parameters haction hopening hline => ?_⟩
  · have hkeywords : ∀ keyword ∈ ["ON_FAILURE", "DESCRIPTION"], IsWordOf isName keyword.toList := by
      decide
    exact fun keyword hk => sourceLines_quoted (hkeywords keyword hk) hs
  · exact header?_of_first haction hopening hline (read_quoted_description s)

/-- A text that ends in a backslash, behind a quote and a semicolon. -/
def fullOfMarks : String := "a \"b\\\";\\"

/-- An action with lines around its header that are none, and with a second header below. -/
def describedTwice : String :=
  "DESCRIPTION: a\n// DESCRIPTION: \"b\"\nACTION Order\n" ++
    "\tDESCRIPTION: \"a \\\"b\\\\\\\";\\\\\" \r\n" ++
    "ACTION Order.ship(note: String?) \x7b\n\nDESCRIPTION: \"c\"\nACTION Order.hold \x7b"

theorem quoted_decodes_fullOfMarks :
    '\n' ∉ fullOfMarks.toList ∧
      FirstLine action? describedTwice "ACTION Order.ship(note: String?) \x7b".toList ∧
      FirstLine description? describedTwice (quoted "DESCRIPTION" fullOfMarks) ∧
      read "ON_FAILURE: \"a \\\"b\\\\\\\";\\\\\"".toList = .failure fullOfMarks ∧
      header? .action describedTwice =
        some
          { name := "ship"
            entityType := some "Order"
            description := some fullOfMarks
            parameters := [⟨"note", "String", true⟩] } := by
  have hs : '\n' ∉ fullOfMarks.toList := by decide
  have hlines : (split '\n' describedTwice.toList).map trim =
      ["DESCRIPTION: a".toList, "// DESCRIPTION: \"b\"".toList, "ACTION Order".toList,
        quoted "DESCRIPTION" fullOfMarks, "ACTION Order.ship(note: String?) \x7b".toList, [],
        "DESCRIPTION: \"c\"".toList, "ACTION Order.hold \x7b".toList] := by
    decide +kernel
  have haction : FirstLine action? describedTwice
      "ACTION Order.ship(note: String?) \x7b".toList :=
    ⟨[_, _, _, _], [_, _, _], hlines, by decide +kernel⟩
  have hline : FirstLine description? describedTwice (quoted "DESCRIPTION" fullOfMarks) :=
    ⟨[_, _, _], [_, _, _, _], hlines, by decide +kernel⟩
  obtain ⟨-, -, -, hmessage, hheader⟩ := quoted_decodes fullOfMarks hs
  exact ⟨hs, haction, hline, hmessage, hheader _ _ _ _ _ haction (by decide +kernel) hline⟩

end Script

end Blockscript
