import Blockscript.Proofs.Script.HeaderLine

/-!
# What a document says

`Script.said` lists what the lines of a written document say, one entry a line and none for empty
lines. The main statement, `map_read_sourceLines`, is that the lines of the text say exactly this:
no text of a field or of the header can add a line, hide one or change what it is.
-/

namespace Blockscript

open Text Line

/-! ## Lines and what they say -/

theorem trim_indented {s : List Char} (hs : Tight s) (depth : ℕ) :
    trim (Script.indented depth s) = s := by
  have h := trim_padded (blanks_replicate (4 * depth)) hs blanks_nil
  rwa [List.append_nil] at h

theorem not_blank_or_comment {s : List Char} (h : ∃ c ∈ s.head?, c ≠ '/') :
    ¬(s = [] ∨ ['/', '/'].isPrefixOf s = true) := by
  obtain ⟨c, hc, hne⟩ := h
  obtain ⟨r, rfl⟩ := List.head?_eq_some_iff.1 hc
  rintro (h | h)
  · cases h
  · rw [List.isPrefixOf, Bool.and_eq_true, beq_iff_eq] at h
    exact hne h.1.symm

theorem numbered_indented {s : List Char} {l : Line} (hs : Writes s l) (depth n : ℕ)
    (ls : List (List Char)) : SourceLine.numbered n (Script.indented depth s :: ls) =
      ⟨n, s⟩ :: SourceLine.numbered (n + 1) ls := by
  rw [SourceLine.numbered, trim_indented hs.toTight, if_neg (not_blank_or_comment hs.start)]

/-- Whether lines, each at some depth or empty, say one after the other what is listed. -/
inductive Says : List (List Char) → List Line → Prop
  | nil : Says [] []
  | empty {ls : List (List Char)} {said : List Line} (h : Says ls said) : Says ([] :: ls) said
  | line {s : List Char} {l : Line} {ls : List (List Char)} {said : List Line} (depth : ℕ)
    (hs : Writes s l) (h : Says ls said) : Says (Script.indented depth s :: ls) (l :: said)

namespace Says

variable {ls ls' : List (List Char)} {said said' : List Line}

theorem append (h : Says ls said) (h' : Says ls' said') : Says (ls ++ ls') (said ++ said') := by
  induction h with
  | nil => exact h'
  | empty _ ih => exact ih.empty
  | line depth hs _ ih => exact ih.line depth hs

theorem single {s : List Char} {l : Line} (depth : ℕ) (hs : Writes s l) :
    Says [Script.indented depth s] [l] := nil.line depth hs

theorem newline_not_mem (h : Says ls said) : ∀ l ∈ ls, '\n' ∉ l := by
  induction h with
  | nil => exact fun l hl => absurd hl List.not_mem_nil
  | empty _ ih => exact List.forall_mem_cons.2 ⟨List.not_mem_nil, ih⟩
  | line depth hs _ ih =>
    refine List.forall_mem_cons.2 ⟨fun hm => ?_, ih⟩
    rcases List.mem_append.1 hm with hm | hm
    · exact absurd (List.eq_of_mem_replicate hm) (by decide)
    · exact hs.no_break '\n' hm (.inr rfl)

theorem map_read_numbered (h : Says ls said) (n : ℕ) :
    (SourceLine.numbered n ls).map (Line.read ·.text) = said := by
  induction h generalizing n with
  | nil => rfl
  | empty _ ih =>
    rw [SourceLine.numbered, if_pos (.inl rfl)]
    exact ih (n + 1)
  | line depth hs _ ih => rw [numbered_indented hs, List.map_cons, ih, hs.read_eq]

end Says

/-- A line break at the end of a text adds no line that says anything. -/
theorem sourceLines_append_newline (text : String) :
    sourceLines (text ++ "\n") = sourceLines text := by
  have htext : (text ++ "\n").toList = text.toList ++ ['\n'] := String.toList_append
  have hnumbered : ∀ (n : ℕ) (ls : List (List Char)),
      SourceLine.numbered n (ls ++ [[]]) = SourceLine.numbered n ls := by
    intro n ls
    induction ls generalizing n with
    | nil => rfl
    | cons l ls ih => rw [List.cons_append, SourceLine.numbered, SourceLine.numbered, ih]
  rw [sourceLines, sourceLines, htext, split_append_sep, hnumbered]

theorem sourceLines_join {ls : List (List Char)} {said : List Line} (h : Says ls said)
    (hne : ls ≠ []) : sourceLines (String.ofList (join ['\n'] ls)) = SourceLine.numbered 1 ls := by
  rw [sourceLines, String.toList_ofList, split_join hne h.newline_not_mem]

/-! ## Bodies -/

/-- What the lines of the statements of an outline say. -/
def Outline.said : Outline → List Line
  | .nil => []
  | .cons b below next =>
    if b.tag = .precondition then next.said
    else if b.isContainer then .statement b.kind.normal :: (below.said ++ .close :: next.said)
    else .statement b.kind.normal :: next.said

/-- What the message line of a precondition says, if there is one. -/
def failureSaid (message : Option String) : List Line :=
  match Clean.optional message with
  | none => []
  | some s => [.failure s]

/-- What the lines of a precondition say. -/
def BlockKind.said : BlockKind → List Line
  | .precondition label conditions message =>
    .precondition (String.ofList (Clean.name "check" label))
      (String.ofList (Clean.line "true" conditions)) :: failureSaid message
  | _ => []

theorem statementLine_eq_none_iff (kind : BlockKind) :
    Script.statementLine kind = none ↔ kind.tag = .precondition := by
  cases kind <;> simp [Script.statementLine, BlockKind.tag]

theorem says_statementLines (depth : ℕ) (o : Outline) :
    Says (Script.statementLines depth o) o.said := by
  induction o generalizing depth with
  | nil => exact .nil
  | cons b below next ihBelow ihNext =>
    rw [Script.statementLines, Outline.said]
    rcases hs : Script.statementLine b.kind with _ | s
    · have htag : b.tag = .precondition := (statementLine_eq_none_iff b.kind).1 hs
      rw [if_pos htag]
      exact ihNext depth
    · have htag : b.tag ≠ .precondition := by
        intro h
        rw [(statementLine_eq_none_iff b.kind).2 h] at hs
        cases hs
      have hline := writes_statementLine hs
      rw [if_neg htag]
      dsimp only
      split
      · exact ((ihBelow (depth + 1)).append ((ihNext depth).line depth writes_close)).empty.line
          depth hline
      · exact (ihNext depth).line depth hline

theorem says_failureLines (message : Option String) :
    Says (Script.failureLines message) (failureSaid message) := by
  unfold Script.failureLines failureSaid
  split
  · rename_i h
    rw [Clean.optional_eq_none h]
    exact .nil
  · rename_i h
    rw [Clean.optional_eq_some h]
    exact .single 2 (writes_failureLine (inline_oneLine _).no_break)

theorem says_preconditionLines (kind : BlockKind) :
    Says (Script.preconditionLines kind) kind.said := by
  cases kind with
  | precondition label conditions message =>
    exact (says_failureLines message).line 1 (writes_preconditionLine label conditions)
  | _ => exact .nil

theorem says_flatMap_preconditionLines (bs : List Block) :
    Says (bs.flatMap (Script.preconditionLines ·.kind)) (bs.flatMap (·.kind.said)) := by
  induction bs with
  | nil => exact .nil
  | cons b bs ih => exact (says_preconditionLines b.kind).append ih

/-! ## Documents -/

/-- What the description line of an action says, if there is one. -/
def descriptionSaid (description : Option String) : List Line :=
  match Clean.optional description with
  | none => []
  | some s => [.descriptionHeader s]

/-- What the header lines of a document say. -/
def Header.said (h : Header) : Mode → List Line
  | .rule =>
    [.ruleHeader (String.ofList (Clean.line "Untitled" h.name)) (some (h.priority.getD 100)),
      .triggerHeader (Trigger.written h.trigger)]
  | .action =>
    .actionHeader (String.ofList (Clean.name "Entity" (h.entityType.getD "")))
      (String.ofList (Script.actionName h.name)) (readParameters (parametersBody h.parameters)) ::
      descriptionSaid h.description

/-- What the lines of a document say below its header. -/
def Script.bodySaid (statements : Outline) (preconditions : List Block) : Mode → List Line
  | .rule => statements.said ++ [.close]
  | .action =>
    preconditions.flatMap (·.kind.said) ++ .effect :: (statements.said ++ [.close, .close])

/-- What the lines of a document say. -/
def Script.said (mode : Mode) (h : Header) (statements preconditions : Forest) : List Line :=
  h.said mode ++ Script.bodySaid statements.outline (preconditions.walk.map (·.2)) mode

theorem says_descriptionLines (description : Option String) :
    Says (Script.descriptionLines description) (descriptionSaid description) := by
  unfold Script.descriptionLines descriptionSaid
  split
  · rename_i h
    rw [Clean.optional_eq_none h]
    exact .nil
  · rename_i h
    rw [Clean.optional_eq_some h]
    exact .single 1 (writes_descriptionLine (inline_oneLine _).no_break)

theorem indented_zero (s : List Char) : Script.indented 0 s = s := rfl

theorem says_lines (mode : Mode) (h : Header) (statements preconditions : Forest) :
    Says (Script.lines mode h statements preconditions)
      (Script.said mode h statements preconditions) := by
  cases mode with
  | rule =>
    have hbody := (says_statementLines 1 statements.outline).append (.single 0 writes_close)
    exact (hbody.empty.line 1 (writes_triggerLine h.trigger)).line 0 (writes_ruleLine h.name _)
  | action =>
    have hend := (Says.single 0 writes_close).line 1 writes_close
    have heffect := (((says_statementLines 2 statements.outline).append hend).line 1
      writes_effect).empty
    have hbody := (says_flatMap_preconditionLines (preconditions.walk.map (·.2))).append heffect
    have hall := ((says_descriptionLines h.description).append hbody).line 0
      (writes_actionLine (h.entityType.getD "") h.name h.parameters)
    simpa only [Script.lines, Script.actionLines, Script.said, Header.said, Script.bodySaid,
      indented_zero, List.cons_append, List.append_assoc] using hall

theorem exists_lines_eq_cons (mode : Mode) (h : Header) (statements preconditions : Forest) :
    ∃ s l ls, Script.lines mode h statements preconditions = (mode.keyword.toList ++ s) :: ls ∧
      Writes (mode.keyword.toList ++ s) l := by
  cases mode with
  | rule => exact ⟨_, _, _, rfl, writes_ruleLine h.name (h.priority.getD 100)⟩
  | action => exact ⟨_, _, _, rfl, writes_actionLine (h.entityType.getD "") h.name h.parameters⟩

theorem lines_ne_nil (mode : Mode) (h : Header) (statements preconditions : Forest) :
    Script.lines mode h statements preconditions ≠ [] := by
  cases mode <;> simp [Script.lines, Script.ruleLines, Script.actionLines]

/-- **A written document** says its header and its body, line by line. -/
theorem map_read_sourceLines (mode : Mode) (h : Header) (statements preconditions : Forest) :
    (sourceLines (Script.write mode h statements preconditions)).map (Line.read ·.text) =
      Script.said mode h statements preconditions := by
  have hsays := says_lines mode h statements preconditions
  rw [Script.write, sourceLines_join hsays (lines_ne_nil mode h statements preconditions)]
  exact hsays.map_read_numbered 1

/-- The first line starts with the keyword of the mode. -/
theorem exists_sourceLines_write (mode : Mode) (h : Header) (statements preconditions : Forest) :
    ∃ s ls, sourceLines (Script.write mode h statements preconditions) =
      ⟨1, mode.keyword.toList ++ s⟩ :: ls := by
  obtain ⟨s, l, ls, hlines, hs⟩ := exists_lines_eq_cons mode h statements preconditions
  have hsays := says_lines mode h statements preconditions
  rw [hlines] at hsays
  refine ⟨s, SourceLine.numbered 2 ls, ?_⟩
  rw [Script.write, hlines, sourceLines_join hsays (List.cons_ne_nil _ ls)]
  exact numbered_indented hs 0 1 ls

end Blockscript
