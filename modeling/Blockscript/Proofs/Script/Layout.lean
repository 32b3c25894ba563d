import Blockscript.Proofs.Script.LineByLine

/-!
# Layout and skipped lines

What a reading gives depends on `codeLines` alone, the lines without the blanks at their ends that
are neither blank nor comments: only the numbers of the skipped lines come from the layout
(`unnumbered_foldl`). And the skipped lines may be taken out of the document, all at once: the
lines that remain are read as they were among the others (`foldlM_counting`). A skipped line ends
the wait for a message, but a message that counted still counts then. The main statement is
`parse_remaining_and_layout`.
-/

namespace Blockscript

open Text

/-! ## Lines of code -/

/-- Whether a line without blanks at its ends is neither empty nor a comment. -/
def isCode (s : List Char) : Bool := decide ¬ (s = [] ∨ ['/', '/'].isPrefixOf s)

/-- The lines of a text without the blanks at their ends, but for blank lines and comments. -/
def codeLines (text : String) : List (List Char) :=
  ((split '\n' text.toList).map trim).filter isCode

theorem map_text_numbered (n : ℕ) (ls : List (List Char)) :
    (SourceLine.numbered n ls).map (·.text) = (ls.map trim).filter isCode := by
  induction ls generalizing n with
  | nil => rfl
  | cons s ls ih =>
    rw [SourceLine.numbered, List.map_cons]
    split
    · rename_i hs
      have hcode : ¬ isCode (trim s) = true := fun hcode => (of_decide_eq_true hcode : ¬ _) hs
      rw [ih, List.filter_cons_of_neg hcode]
    · rename_i hs
      have hcode : isCode (trim s) = true := decide_eq_true hs
      rw [List.map_cons, ih, List.filter_cons_of_pos hcode]

/-- The lines that are read are the lines of code. -/
theorem map_text_sourceLines (text : String) : (sourceLines text).map (·.text) = codeLines text :=
  map_text_numbered 1 _

theorem map_read_sourceLines_eq (text : String) :
    (sourceLines text).map (Line.read ·.text) = (codeLines text).map Line.read := by
  rw [← map_text_sourceLines, List.map_map]
  rfl

theorem of_mem_codeLines {text : String} {s : List Char} (h : s ∈ codeLines text) :
    trim s = s ∧ isCode s = true ∧ '\n' ∉ s := by
  obtain ⟨hs, hcode⟩ := List.mem_filter.1 h
  obtain ⟨raw, hraw, rfl⟩ := List.mem_map.1 hs
  refine ⟨(tight_trim raw).trim_eq, hcode, fun hm => ?_⟩
  exact not_mem_of_mem_split '\n' text.toList raw hraw (trim_subset raw hm)

/-- Lines of code that are put together are the lines of code of the text. -/
theorem codeLines_join {ls : List (List Char)}
    (h : ∀ s ∈ ls, trim s = s ∧ isCode s = true ∧ '\n' ∉ s) :
    codeLines (String.ofList (join ['\n'] ls)) = ls := by
  by_cases hne : ls = []
  · rw [hne]
    rfl
  · have htrim : ls.map trim = ls := by
      refine (List.map_congr_left fun s hs => ?_).trans (List.map_id ls)
      exact (h s hs).1
    rw [codeLines, String.toList_ofList, split_join hne fun s hs => (h s hs).2.2, htrim]
    exact List.filter_eq_self.2 fun s hs => (h s hs).2.1

namespace Script.Progress

variable {mode : Mode} {start : IdSupply} {before : List Line} {p q : Progress} {said : Line}

/-! ## The skipped lines of a reader -/

/-- A reader that has noted other lines as skipped. -/
def withSkipped (change : List SkippedLine → List SkippedLine) (p : Progress) : Progress :=
  { p with skipped := change p.skipped }

/-- A line that counts is read the same whatever was skipped. -/
theorem take?_withSkipped (change : List SkippedLine → List SkippedLine) (mode : Mode)
    (p : Progress) (said : Line) :
    (p.withSkipped change).take? mode said = (p.take? mode said).map (withSkipped change) := by
  unfold take?
  cases said with
  | statement kind =>
    have haccepts : acceptsStatements { p.withSkipped change with awaiting := none } mode =
        acceptsStatements { p with awaiting := none } mode := rfl
    cases mode <;>
    · dsimp only
      rw [haccepts]
      split <;> rfl
  | failure message =>
    cases mode with
    | rule => rfl
    | action =>
      have hawaiting : (p.withSkipped change).awaiting = p.awaiting := rfl
      dsimp only
      rw [hawaiting, Option.map_map]
      rfl
  | _ => cases mode <;> rfl

theorem skipped_of_take? (h : p.take? mode said = some q) : q.skipped = p.skipped := by
  have hsame := take?_withSkipped (fun _ => p.skipped) mode p said
  have hself : p.withSkipped (fun _ => p.skipped) = p := rfl
  rw [hself, h] at hsame
  have hskipped := congrArg skipped (Option.some.inj hsame)
  exact hskipped

/-- A line that counts is read the same by a reader that may still wait for a message. -/
theorem take?_of_awaiting (h : p.take? mode said = some q) {w : Option BlockId}
    (hw : ∀ id, p.awaiting = some id → w = some id) :
    { p with awaiting := w }.take? mode said = some q := by
  rw [← h]
  cases said with
  | failure message =>
    cases mode with
    | rule => rfl
    | action =>
      obtain ⟨id, hid, -⟩ := Option.map_eq_some_iff.1 h
      unfold take?
      dsimp only
      rw [hid, hw id hid]
  | _ => cases mode <;> rfl

/-! ## Layout -/

/-- A reader that has noted the skipped lines without their numbers. -/
def unnumbered (p : Progress) : Progress := p.withSkipped (List.map fun s => ⟨0, s.text⟩)

theorem map_text_unnumbered (p : Progress) :
    p.unnumbered.skipped.map (·.text) = p.skipped.map (·.text) := List.map_map

theorem unnumbered_step (mode : Mode) (p : Progress) (line : SourceLine) :
    (p.step mode line).unnumbered = p.unnumbered.step mode ⟨0, line.text⟩ := by
  rw [step_eq, step_eq, unnumbered, unnumbered, take?_withSkipped]
  rcases p.take? mode (Line.read line.text) with _ | q
  · exact congrArg (fun s => { p with awaiting := none, skipped := s }) List.map_append
  · rfl

/-- **Readings** of lines with the same texts differ in the numbers of skipped lines only. -/
theorem unnumbered_foldl (mode : Mode) (p : Progress) (lines : List SourceLine) :
    (lines.foldl (step mode) p).unnumbered =
      ((lines.map (·.text)).map (SourceLine.mk 0)).foldl (step mode) p.unnumbered := by
  induction lines generalizing p with
  | nil => rfl
  | cons line lines ih =>
    rw [List.foldl_cons, ih, unnumbered_step]
    rfl

/-! ## Skipped lines -/

/-- A line that comes to nothing is one that does not count. -/
theorem Follows.take?_eq_none_iff {l : PlacedLine} (h : p.Follows mode start l.before) :
    p.take? mode l.said = none ↔ l.use mode = .dropped := by
  have hskipped := skipped_step h
  have hstep : p.step mode l.line =
    (p.take? mode l.said).getD ({ p with awaiting := none }.skip l.line) := Progress.step_eq _ _ _
  rw [hstep, PlacedLine.skipped?] at hskipped
  constructor
  · intro hnone
    by_contra hu
    rw [hnone, if_neg hu] at hskipped
    cases List.append_cancel_left hskipped
  · intro hu
    rcases hq : p.take? mode l.said with _ | q
    · rfl
    · rw [hq, if_pos hu, Option.getD_some, skipped_of_take? hq] at hskipped
      cases List.self_eq_append_right.1 hskipped

/-- A reader that has seen only the lines that count, and waits for the message of `w`. -/
def counting (p : Progress) (w : Option BlockId) : Progress :=
  { p with awaiting := w, skipped := [] }

theorem take?_counting (h : p.take? mode said = some q) {w : Option BlockId}
    (hw : ∀ id, p.awaiting = some id → w = some id) :
    (p.counting w).take? mode said = some (q.counting q.awaiting) := by
  have hcounting : p.counting w = withSkipped (fun _ => []) { p with awaiting := w } := rfl
  rw [hcounting, take?_withSkipped, take?_of_awaiting h hw]
  rfl

/-- **Lines that count** are read the same when the others are left out. -/
theorem foldlM_counting (h : p.Follows mode start before) {w : Option BlockId}
    (hw : ∀ id, p.awaiting = some id → w = some id) (lines : List SourceLine) :
    ∃ w', (((placed before lines).filter (·.use mode ≠ .dropped)).map (·.said)).foldlM (take? mode)
        (p.counting w) = some ((lines.foldl (step mode) p).counting w') := by
  induction lines generalizing p before w with
  | nil => exact ⟨w, rfl⟩
  | cons line lines ih =>
    let l : PlacedLine := ⟨before, line, lines.map (Line.read ·.text)⟩
    have hl : p.Follows mode start l.before := h
    rw [placed, List.foldl_cons]
    by_cases hu : l.use mode = .dropped
    -- The reader that does not see the line goes on waiting for a message, which does no harm.
    · have hstep : p.step mode line = { p with awaiting := none }.skip line := by
        rw [Progress.step_eq]
        exact congrArg (Option.getD · _) (hl.take?_eq_none_iff.2 hu)
      have hcounting : p.counting w = (p.step mode line).counting w := by
        rw [hstep]
        rfl
      have hnone : ∀ id, (p.step mode line).awaiting = some id → w = some id := by
        rw [hstep]
        intro id hid
        cases hid
      rw [List.filter_cons_of_neg (by simpa using hu), hcounting]
      exact ih (h.step line) hnone
    · obtain ⟨q, hq⟩ := Option.ne_none_iff_exists'.1 (mt hl.take?_eq_none_iff.1 hu)
      have hstep : p.step mode line = q := by
        rw [Progress.step_eq]
        exact congrArg (Option.getD · _) hq
      rw [List.filter_cons_of_pos (by simpa using hu), List.map_cons,
        foldlM_cons_of (take?_counting hq hw), ← hstep]
      exact ih (h.step line) fun _ hid => hid

end Script.Progress

namespace Script

open Progress

/-! ## Documents -/

variable (mode : Mode) (ids : IdSupply) (text : String)

/-- The lines of a document that reading does not skip. -/
def keptLines : List SourceLine :=
  (sourceLines text).filter (·.noted ∉ (parse mode ids text).1.skipped)

/-- The document made of the lines that reading does not skip. -/
def remaining : String :=
  String.ofList (join ['\n'] ((keptLines mode ids text).map (·.text)))

variable {mode ids text}

/-- The skipped lines are those that come to nothing. -/
theorem noted_mem_skipped_iff {l : PlacedLine} (hl : l ∈ placedLines text) :
    l.line.noted ∈ (parse mode ids text).1.skipped ↔ l.use mode = .dropped := by
  refine ⟨fun h => ?_, mem_skipped hl⟩
  obtain ⟨m, hm, hu, hnoted⟩ := exists_of_mem_skipped h
  have hnumbers : ((placedLines text).map (·.line.number)).Nodup :=
    List.pairwise_map.2 ((pairwise_placedLines text).imp Nat.ne_of_lt)
  have hnumber : l.line.number = m.line.number := congrArg SkippedLine.number hnoted
  rwa [List.inj_on_of_nodup_map hnumbers hl hm hnumber]

variable (mode ids text)

theorem keptLines_eq : keptLines mode ids text =
    ((placedLines text).filter (·.use mode ≠ .dropped)).map (·.line) := by
  have hlines : (placedLines text).map (·.line) = sourceLines text := map_line_placed [] _
  rw [keptLines, ← hlines, List.filter_map]
  refine congrArg _ (List.filter_congr fun l hl => ?_)
  exact decide_eq_decide.2 (not_congr (noted_mem_skipped_iff hl))

theorem map_read_remaining : (sourceLines (remaining mode ids text)).map (Line.read ·.text) =
    ((placedLines text).filter (·.use mode ≠ .dropped)).map (·.said) := by
  have hcode : ∀ s ∈ (keptLines mode ids text).map (·.text),
      trim s = s ∧ isCode s = true ∧ '\n' ∉ s := by
    intro s hs
    have hmem : s ∈ codeLines text := by
      rw [← map_text_sourceLines]
      exact (List.filter_sublist.map _).subset hs
    exact of_mem_codeLines hmem
  rw [map_read_sourceLines_eq, remaining, codeLines_join hcode, keptLines_eq, List.map_map,
    List.map_map]
  rfl

/-- **The remaining lines** give the same document. -/
theorem parse_remaining : parse mode ids (remaining mode ids text) =
    ({ (parse mode ids text).1 with skipped := [] }, (parse mode ids text).2) := by
  have hnone : ∀ id, ({ ids } : Progress).awaiting = some id → none = some id := fun id hid => hid
  obtain ⟨w, hw⟩ := foldlM_counting (follows_initial mode ids) hnone (sourceLines text)
  exact parse_of_foldlM (map_read_remaining mode ids text) hw

/-- **Documents with the same lines of code** are read the same, but for the numbers of the skipped
lines. -/
theorem unnumbered_progress {text other : String} (h : codeLines other = codeLines text) :
    (progress mode ids other).unnumbered = (progress mode ids text).unnumbered := by
  rw [progress, progress, unnumbered_foldl, unnumbered_foldl, map_text_sourceLines,
    map_text_sourceLines, h]

/-- **Layout and skipped lines.** A document that is left with the lines that reading does not skip
is read as the same statements and preconditions, under the same identifiers and to the same end of
the supply, with no line skipped. And all documents that have the same lines of code are read as
the same statements and preconditions, to the same end, and skip lines of the same text. -/
theorem parse_remaining_and_layout :
    parse mode ids (remaining mode ids text) =
        ({ (parse mode ids text).1 with skipped := [] }, (parse mode ids text).2) ∧
      ∀ other, codeLines other = codeLines text →
        (parse mode ids other).1.statements = (parse mode ids text).1.statements ∧
          (parse mode ids other).1.preconditions = (parse mode ids text).1.preconditions ∧
          (parse mode ids other).2 = (parse mode ids text).2 ∧
          (parse mode ids other).1.skipped.map (·.text) =
            (parse mode ids text).1.skipped.map (·.text) := by
  refine ⟨parse_remaining mode ids text, fun other h => ?_⟩
  have hsame := unnumbered_progress mode ids h
  have hstatements := congrArg Progress.statements hsame
  have hpreconditions := congrArg Progress.preconditions hsame
  have hids := congrArg Progress.ids hsame
  have hskipped := congrArg (fun p : Progress => p.skipped.map (·.text)) hsame
  simp only [map_text_unnumbered] at hskipped
  exact ⟨hstatements, hpreconditions, hids, hskipped⟩

/-- A rule with a line that is skipped. -/
def tidyRule : String := "SET a.b = 1;\nIF (x) THEN y\nSET c.d = 2;"

/-- The rule in another layout. -/
def untidyRule : String :=
  "// first\r\n  SET a.b = 1;\r\n\r\n\tIF (x) THEN y \r\n// then\nSET c.d = 2;\n"

theorem parse_remaining_and_layout_untidyRule :
    parse .rule .initial (remaining .rule .initial tidyRule) =
        ({ (parse .rule .initial tidyRule).1 with skipped := [] },
          (parse .rule .initial tidyRule).2) ∧
      codeLines untidyRule = codeLines tidyRule ∧
      (parse .rule .initial untidyRule).1.statements =
        (parse .rule .initial tidyRule).1.statements ∧
      (parse .rule .initial untidyRule).1.skipped = [⟨4, "IF (x) THEN y"⟩] ∧
      (parse .rule .initial tidyRule).1.skipped = [⟨2, "IF (x) THEN y"⟩] := by
  obtain ⟨hremaining, hlayout⟩ := parse_remaining_and_layout .rule .initial tidyRule
  have hcode : codeLines untidyRule = codeLines tidyRule := by decide +kernel
  exact ⟨hremaining, hcode, (hlayout untidyRule hcode).1, by decide +kernel, by decide +kernel⟩

end Script

end Blockscript
