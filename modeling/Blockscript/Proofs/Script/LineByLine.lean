import Blockscript.Proofs.Script.Uses

/-!
# Documents line by line

`placedLines` shows each line of a document with what the lines before and after it say. What a
reading gives can be told from this list alone, entry by entry: the statements with their depths,
the preconditions with their messages, the identifiers and the lines that are skipped
(`parse_line_by_line`, `preconditions_parse_action`). A view of a reader that grows by one entry a
line is all of these at the end (`foldl_view`).
-/

namespace Blockscript

open Text

/-- A line as it is noted if it is skipped. -/
def SourceLine.noted (l : SourceLine) : SkippedLine := ⟨l.number, String.ofList l.text⟩

/-- A line of a document, with what the lines before it say, the nearest first, and the lines after
it, the nearest first too. -/
structure PlacedLine where
  before : List Line
  line : SourceLine
  after : List Line

/-- The message on the first of the given lines, if it is a message and not blank. -/
def Line.messageOn : List Line → Option String
  | .failure message :: _ => unlessBlank message
  | _ => none

namespace PlacedLine

/-- What the line says. -/
def said (l : PlacedLine) : Line := Line.read l.line.text

/-- What the line comes to. -/
def use (mode : Mode) (l : PlacedLine) : Line.Use := l.said.use mode l.before

/-- The next identifier at the line, if they are handed out from `n` on. -/
def nextId (mode : Mode) (n : ℕ) (l : PlacedLine) : BlockId := ⟨n + Line.blockCount mode l.before⟩

/-- The identifier that the line takes. -/
def blockId? (mode : Mode) (n : ℕ) (l : PlacedLine) : Option BlockId :=
  match l.use mode with
  | .statement _ | .precondition .. => some (l.nextId mode n)
  | _ => none

/-- The statement on the line and its depth. -/
def statement? (mode : Mode) (n : ℕ) (l : PlacedLine) : Option (ℕ × Block) :=
  match l.use mode with
  | .statement kind => some (Line.loopDepth mode l.before, ⟨l.nextId mode n, kind⟩)
  | _ => none

/-- The precondition on the line, at the top, with the message on the line after it. -/
def precondition? (mode : Mode) (n : ℕ) (l : PlacedLine) : Option (ℕ × Block) :=
  match mode, l.said with
  | .action, .precondition label conditions =>
    some (0, ⟨l.nextId mode n, .precondition label conditions (Line.messageOn l.after)⟩)
  | _, _ => none

/-- The line, if it comes to nothing. -/
def skipped? (mode : Mode) (l : PlacedLine) : Option SkippedLine :=
  if l.use mode = .dropped then some l.line.noted else none

variable {mode : Mode} {l : PlacedLine}

theorem precondition?_of_use {label conditions : String}
    (hu : l.use mode = .precondition label conditions) (n : ℕ) : l.precondition? mode n =
      some (0, ⟨l.nextId mode n, .precondition label conditions (Line.messageOn l.after)⟩) := by
  obtain ⟨rfl, hsaid⟩ := Line.use_eq_precondition_iff.1 hu
  unfold precondition?
  rw [hsaid]

theorem precondition?_eq_none (hu : ∀ label conditions, l.use mode ≠ .precondition label conditions)
    (n : ℕ) : l.precondition? mode n = none := by
  unfold precondition?
  split
  · rename_i hsaid
    exact absurd (Line.use_eq_precondition_iff.2 ⟨rfl, hsaid⟩) (hu _ _)
  · rfl

theorem skipped?_eq_some_iff {s : SkippedLine} :
    l.skipped? mode = some s ↔ l.use mode = .dropped ∧ l.line.noted = s := by
  rw [skipped?, Option.ite_none_right_eq_some, Option.some.injEq]

end PlacedLine

/-- Lines in their places after others. -/
def placed (before : List Line) : List SourceLine → List PlacedLine
  | [] => []
  | line :: lines =>
    ⟨before, line, lines.map (Line.read ·.text)⟩ :: placed (Line.read line.text :: before) lines

/-- The lines of a document in their places. -/
def placedLines (text : String) : List PlacedLine := placed [] (sourceLines text)

theorem map_line_placed (before : List Line) (lines : List SourceLine) :
    (placed before lines).map (·.line) = lines := by
  induction lines generalizing before with
  | nil => rfl
  | cons line lines ih => rw [placed, List.map_cons, ih]

/-! ## Source lines -/

namespace SourceLine

variable {n : ℕ} {ls : List (List Char)} {l : SourceLine}

theorem le_number_of_mem_numbered (h : l ∈ numbered n ls) : n ≤ l.number := by
  induction ls generalizing n with
  | nil => exact absurd h List.not_mem_nil
  | cons s ls ih =>
    rw [numbered] at h
    split at h
    · exact Nat.le_of_succ_le (ih h)
    · rcases List.mem_cons.1 h with rfl | h
      · exact Nat.le_refl n
      · exact Nat.le_of_succ_le (ih h)

theorem pairwise_numbered (n : ℕ) (ls : List (List Char)) :
    (numbered n ls).Pairwise fun l m => l.number < m.number := by
  induction ls generalizing n with
  | nil => exact .nil
  | cons s ls ih =>
    rw [numbered]
    split
    · exact ih (n + 1)
    · exact List.pairwise_cons.2 ⟨fun m hm => le_number_of_mem_numbered hm, ih (n + 1)⟩

/-- A line is what is left, between its blanks, of the line of its number. -/
theorem getElem?_of_mem_numbered (h : l ∈ numbered n ls) :
    (ls[l.number - n]?).map trim = some l.text := by
  induction ls generalizing n with
  | nil => exact absurd h List.not_mem_nil
  | cons s ls ih =>
    have hlater : l ∈ numbered (n + 1) ls → ((s :: ls)[l.number - n]?).map trim = some l.text := by
      intro hm
      have hle := le_number_of_mem_numbered hm
      have hsub : l.number - n = l.number - (n + 1) + 1 := by omega
      rw [hsub, List.getElem?_cons_succ]
      exact ih hm
    rw [numbered] at h
    split at h
    · exact hlater h
    · rcases List.mem_cons.1 h with rfl | h
      · rw [Nat.sub_self]
        rfl
      · exact hlater h

end SourceLine

namespace Script

namespace Progress

variable {mode : Mode} {start : IdSupply} {before : List Line} {p : Progress} {l : PlacedLine}

/-! ## Views that grow -/

/-- **A view** of a reader that grows by an entry for each line, or by none, lists these at the end.
A view may look ahead to what the lines to come say. -/
theorem foldl_view {α : Type} (view : Progress → List Line → List α)
    {item? : PlacedLine → Option α}
    (hstep : ∀ {p} {l : PlacedLine}, p.Follows mode start l.before →
      view (p.step mode l.line) l.after = view p (l.said :: l.after) ++ (item? l).toList)
    (h : p.Follows mode start before) (lines : List SourceLine) :
    view (lines.foldl (Progress.step mode) p) [] =
      view p (lines.map (Line.read ·.text)) ++ (placed before lines).filterMap item? := by
  induction lines generalizing p before with
  | nil => exact (List.append_nil _).symm
  | cons line lines ih =>
    have hline := hstep (l := ⟨before, line, lines.map (Line.read ·.text)⟩) h
    have hlines := ih (h.step line)
    dsimp only at hline
    rw [List.filterMap_eq_flatMap_toList] at hlines ⊢
    rw [List.foldl_cons, hlines, hline, List.append_assoc]
    rfl

theorem Follows.step_placed (h : p.Follows mode start l.before) :
    p.step mode l.line = p.act l.line (l.use mode) := h.step_eq l.line

theorem walk_statements_step (h : p.Follows mode start l.before) :
    (p.step mode l.line).statements.walk =
      p.statements.walk ++ (l.statement? mode start.next).toList := by
  have hsaid : l.said.Admissible := Line.admissible_read _
  rw [h.step_placed, PlacedLine.statement?, PlacedLine.nextId, ← h.depth, ← h.next]
  cases hu : l.use mode with
  | statement kind =>
    have htag := Line.tag_of_use_eq_statement hsaid hu
    exact walk_addStatement h.counted.ready h.sound htag h.spine
  | _ => exact (List.append_nil _).symm

theorem drawn_step (h : p.Follows mode start l.before) : start.drawn (p.step mode l.line).ids =
    start.drawn p.ids ++ (l.blockId? mode start.next).toList := by
  have hdrawn := IdSupply.drawn_advance h.counted.le
  rw [h.step_placed, PlacedLine.blockId?, PlacedLine.nextId, ← h.next]
  cases l.use mode with
  | statement kind => exact hdrawn
  | precondition label conditions => exact hdrawn
  | _ => exact (List.append_nil _).symm

theorem skipped_step (h : p.Follows mode start l.before) :
    (p.step mode l.line).skipped = p.skipped ++ (l.skipped? mode).toList := by
  rw [h.step_placed, PlacedLine.skipped?]
  cases l.use mode with
  | dropped => rfl
  | _ => exact (List.append_nil _).symm

/-! ## Messages -/

/-- The preconditions, with the message that the next line has for the one that may get it. -/
def pending (p : Progress) : List Line → List (ℕ × Block)
  | .failure message :: _ =>
    match p.awaiting with
    | some id => p.preconditions.walk.map (withMessage id message)
    | none => p.preconditions.walk
  | _ => p.preconditions.walk

theorem pending_of_awaiting (hw : p.awaiting = none) (after : List Line) :
    p.pending after = p.preconditions.walk := by
  unfold pending
  rw [hw]
  split <;> rfl

/-- A line that comes to no message has none for a precondition. -/
theorem Follows.pending_cons (h : p.Follows mode start l.before)
    (hu : ∀ text, l.use mode ≠ .message text) :
    p.pending (l.said :: l.after) = p.preconditions.walk := by
  unfold PlacedLine.use at hu
  cases hsaid : l.said with
  | failure message =>
    refine pending_of_awaiting ?_ _
    have hw := h.awaiting
    cases mode with
    | rule => rw [hw, Line.awaited_rule]
    | action =>
      have hafter : ¬ Line.isAfterPrecondition l.before = true := by
        intro hafter
        rw [hsaid] at hu
        exact hu message (if_pos ⟨rfl, hafter⟩)
      rw [Line.isAfterPrecondition_eq l.before start.next, ← hw] at hafter
      exact Option.not_isSome_iff_eq_none.1 hafter
  | _ => rfl

/-- A message is for the precondition on the line before. -/
theorem Follows.exists_awaiting (h : p.Follows mode start l.before) {text : String}
    (hu : l.use mode = .message text) : l.said = .failure text ∧ ∃ id, p.awaiting = some id := by
  obtain ⟨rfl, hsaid, hafter⟩ := Line.of_use_eq_message hu
  rw [Line.isAfterPrecondition_eq l.before start.next, ← h.awaiting] at hafter
  exact ⟨hsaid, Option.isSome_iff_exists.1 hafter⟩

/-- A message for a precondition that is not there changes nothing. -/
theorem map_withMessage_fresh (h : p.Follows mode start before) (message : String) :
    p.preconditions.walk.map (withMessage p.ids.fresh message) = p.preconditions.walk := by
  refine (List.map_congr_left fun e he => ?_).trans (List.map_id _)
  have hne : e.2.id ≠ p.ids.fresh := by
    intro hid
    have hr := h.sound.preconditions.represents
    have hnone := h.counted.isOpen.fresh p.ids.fresh (Nat.le_refl p.ids.next)
    rw [Forest.get?_eq_none_iff, ← Bool.not_eq_true, hr.contains_iff, ← Outline.map_walk_id _ 0,
      ← hr.walk_eq] at hnone
    exact hnone (List.mem_map.2 ⟨e, he, hid⟩)
  rw [withMessage, if_neg hne]
  rfl

/-- A precondition has the message on the line after it. -/
theorem pending_addPrecondition (h : p.Follows mode start before) (label conditions : String)
    (after : List Line) : (p.addPrecondition label conditions).pending after =
      p.preconditions.walk ++
        [(0, ⟨p.ids.fresh, .precondition label conditions (Line.messageOn after)⟩)] := by
  have hwalk := walk_addPrecondition h.counted.isOpen h.sound label conditions
  cases after with
  | nil => exact hwalk
  | cons said after =>
    cases said with
    | failure message =>
      have hnew : withMessage p.ids.fresh message
          (0, ⟨p.ids.fresh, .precondition label conditions none⟩) =
            (0, ⟨p.ids.fresh, .precondition label conditions (unlessBlank message)⟩) :=
        congrArg (Prod.mk 0) (if_pos rfl)
      show (p.addPrecondition label conditions).preconditions.walk.map
        (withMessage p.ids.fresh message) = _
      rw [hwalk, List.map_append, map_withMessage_fresh h, List.map_singleton, hnew]
      rfl
    | _ => exact hwalk

/-- A line changes the preconditions by what it adds and by the message that it has for one. -/
theorem pending_step (h : p.Follows mode start l.before) :
    (p.step mode l.line).pending l.after =
      p.pending (l.said :: l.after) ++ (l.precondition? mode start.next).toList := by
  have hother := h.pending_cons
  rw [h.step_placed]
  cases hu : l.use mode with
  | precondition label conditions =>
    rw [hother (by simp [hu]), l.precondition?_of_use hu, PlacedLine.nextId, ← h.next]
    exact pending_addPrecondition h label conditions l.after
  | message text =>
    obtain ⟨hsaid, id, hw⟩ := h.exists_awaiting hu
    have hwaits : (p.act l.line (.message text)).awaiting = none := rfl
    rw [l.precondition?_eq_none (by simp [hu]), hsaid, pending_of_awaiting hwaits, pending, hw,
      act, hw, Option.toList_none, List.append_nil]
    exact walk_setMessage h.sound id text
  | _ =>
    rw [hother (by simp [hu]), l.precondition?_eq_none (by simp [hu])]
    exact (pending_of_awaiting rfl _).trans (List.append_nil _).symm

end Progress

/-! ## Documents -/

section Parse

open Progress

variable (mode : Mode) (ids : IdSupply) (text : String)

theorem follows_progress : (progress mode ids text).Follows mode ids
    ((sourceLines text).map (Line.read ·.text)).reverse := by
  have h := (follows_initial mode ids).foldl (sourceLines text)
  rwa [List.append_nil] at h

theorem walk_statements_parse : (parse mode ids text).1.statements.walk =
    (placedLines text).filterMap (·.statement? mode ids.next) :=
  foldl_view (fun p _ => p.statements.walk) walk_statements_step (follows_initial mode ids)
    (sourceLines text)

theorem walk_preconditions_parse : (parse mode ids text).1.preconditions.walk =
    (placedLines text).filterMap (·.precondition? mode ids.next) := by
  have h := foldl_view pending pending_step (follows_initial mode ids) (sourceLines text)
  rwa [pending_of_awaiting (p := { ids }) rfl] at h

theorem drawn_parse : ids.drawn (parse mode ids text).2 =
    (placedLines text).filterMap (·.blockId? mode ids.next) := by
  have h := foldl_view (fun p _ => ids.drawn p.ids) drawn_step (follows_initial mode ids)
    (sourceLines text)
  rwa [IdSupply.drawn_self] at h

theorem skipped_parse : (parse mode ids text).1.skipped =
    (placedLines text).filterMap (·.skipped? mode) :=
  foldl_view (fun p _ => p.skipped) skipped_step (follows_initial mode ids) (sourceLines text)

variable {mode ids text}

/-- A skipped line is one of the lines. -/
theorem exists_of_mem_skipped {s : SkippedLine} (h : s ∈ (parse mode ids text).1.skipped) :
    ∃ l ∈ placedLines text, l.use mode = .dropped ∧ s = l.line.noted := by
  rw [skipped_parse] at h
  obtain ⟨l, hl, hs⟩ := List.mem_filterMap.1 h
  obtain ⟨hu, rfl⟩ := PlacedLine.skipped?_eq_some_iff.1 hs
  exact ⟨l, hl, hu, rfl⟩

theorem mem_skipped {l : PlacedLine} (hl : l ∈ placedLines text) (hu : l.use mode = .dropped) :
    l.line.noted ∈ (parse mode ids text).1.skipped := by
  rw [skipped_parse]
  exact List.mem_filterMap.2 ⟨l, hl, PlacedLine.skipped?_eq_some_iff.2 ⟨hu, rfl⟩⟩

theorem line_mem_sourceLines {l : PlacedLine} (hl : l ∈ placedLines text) :
    l.line ∈ sourceLines text := by
  rw [← map_line_placed [] (sourceLines text)]
  exact List.mem_map_of_mem hl

/-- Different lines have different numbers. -/
theorem pairwise_placedLines (text : String) :
    (placedLines text).Pairwise fun l m => l.line.number < m.line.number := by
  have h : ((placedLines text).map (·.line)).Pairwise fun l m => l.number < m.number := by
    rw [placedLines, map_line_placed]
    exact SourceLine.pairwise_numbered 1 _
  rwa [List.pairwise_map] at h

variable (mode ids text)

/-- The numbers of the skipped lines rise. -/
theorem pairwise_skipped :
    (parse mode ids text).1.skipped.Pairwise fun s t => s.number < t.number := by
  rw [skipped_parse]
  refine (pairwise_placedLines text).filterMap _ fun l m hlm s hs t ht => ?_
  obtain ⟨-, rfl⟩ := PlacedLine.skipped?_eq_some_iff.1 hs
  obtain ⟨-, rfl⟩ := PlacedLine.skipped?_eq_some_iff.1 ht
  exact hlm

/-- **Line by line.** A document is read as its lines describe it, one by one. The walk through the
statements lists one block for each line that is a statement in its place, in the order of the lines
and as deep as loops are open there; the lines that make a block take the identifiers from the next
one on, one after the other; and the skipped lines, with rising numbers and without the blanks at
their ends, are those that come to nothing. -/
theorem parse_line_by_line :
    (parse mode ids text).1.statements.walk =
        (placedLines text).filterMap (·.statement? mode ids.next) ∧
      (parse mode ids text).1.preconditions.walk.map (·.2.id) =
        (placedLines text).filterMap (fun l => (l.precondition? mode ids.next).map (·.2.id)) ∧
      ids.drawn (parse mode ids text).2 =
        (placedLines text).filterMap (·.blockId? mode ids.next) ∧
      (parse mode ids text).2.next = ids.next +
        Line.blockCount mode ((sourceLines text).map (Line.read ·.text)).reverse ∧
      (parse mode ids text).1.skipped = (placedLines text).filterMap (·.skipped? mode) ∧
      (parse mode ids text).1.skipped.Pairwise (fun s t => s.number < t.number) ∧
      ∀ s ∈ (parse mode ids text).1.skipped, 0 < s.number ∧
        ((split '\n' text.toList)[s.number - 1]?).map trim = some s.text.toList := by
  refine ⟨walk_statements_parse mode ids text, ?_, drawn_parse mode ids text,
    (follows_progress mode ids text).next, skipped_parse mode ids text,
    pairwise_skipped mode ids text, fun s hs => ?_⟩
  · rw [walk_preconditions_parse, List.map_filterMap]
  · obtain ⟨l, hl, -, rfl⟩ := exists_of_mem_skipped hs
    have hmem := line_mem_sourceLines hl
    refine ⟨SourceLine.le_number_of_mem_numbered hmem, ?_⟩
    rw [SourceLine.noted, String.toList_ofList]
    exact SourceLine.getElem?_of_mem_numbered hmem

/-- **Messages and preconditions.** The preconditions of an action are those of its precondition
lines, one each and in their order, wherever the lines stand; each has the message of the next line
if that is a message and not blank, and none otherwise. A message line that does not follow a
precondition line is skipped. -/
theorem preconditions_parse_action : (parse .action ids text).1.preconditions.walk =
      (placedLines text).filterMap (·.precondition? .action ids.next) ∧
    ∀ l ∈ placedLines text, ∀ message, l.said = .failure message →
      Line.isAfterPrecondition l.before = false →
        l.line.noted ∈ (parse .action ids text).1.skipped := by
  refine ⟨walk_preconditions_parse .action ids text, fun l hl message hsaid hafter => ?_⟩
  refine mem_skipped hl ?_
  have hnot : ¬ (Mode.action = .action ∧ Line.isAfterPrecondition l.before = true) := by
    rw [hafter]
    exact fun h => Bool.false_ne_true h.2
  rw [PlacedLine.use, hsaid]
  exact if_neg hnot

end Parse

/-- An action with a message that comes too late and one that comes after a comment. -/
def lateMessage : String :=
  "PRECONDITION a: true\nDESCRIPTION: \"between\"\nON_FAILURE: \"late\"\n" ++
    "PRECONDITION b: false\n  // no blank\n\n  ON_FAILURE: \"no\""

theorem preconditions_parse_action_lateMessage :
    (parse .action .initial lateMessage).1.preconditions.walk =
        [(0, ⟨⟨0⟩, .precondition "a" "true" none⟩),
          (0, ⟨⟨1⟩, .precondition "b" "false" (some "no")⟩)] ∧
      ⟨3, "ON_FAILURE: \"late\""⟩ ∈ (parse .action .initial lateMessage).1.skipped := by
  obtain ⟨hwalk, hskipped⟩ := preconditions_parse_action .initial lateMessage
  have hlate : ∃ l ∈ placedLines lateMessage, l.said = .failure "late" ∧
      Line.isAfterPrecondition l.before = false ∧
        l.line.noted = ⟨3, "ON_FAILURE: \"late\""⟩ := by decide +kernel
  obtain ⟨l, hl, hsaid, hafter, hnoted⟩ := hlate
  exact ⟨hwalk.trans (by decide +kernel), hnoted ▸ hskipped l hl "late" hsaid hafter⟩

end Script

end Blockscript
