import Blockscript.Proofs.Forest.Kept
import Blockscript.Proofs.Forest.Replaced
import Blockscript.Proofs.Script.Said

/-!
# Edits of a document, line by line

The statements of a document are written entry by entry (`statementLines_eq_render`), and so are its
preconditions; both stand in one stretch of its lines, and nothing else of the document depends on
them (`exists_lines_eq`). What changes them at one position therefore changes the document at one
position: `lines_withStatements`, `lines_withPreconditions`.
-/

namespace Blockscript

/-- How many levels deep the statements of a document stand. -/
def Mode.depth : Mode → ℕ
  | .rule => 1
  | .action => 2

/-- The lines of a precondition in a document; a rule has none. -/
def Mode.preconditionLines : Mode → BlockKind → List (List Char)
  | .rule, _ => []
  | .action, kind => Script.preconditionLines kind

namespace Script

/-! ## Statements, entry by entry -/

/-- The lines of a statement up to those of the blocks below it. -/
def openingLines (depth : ℕ) (b : Block) : List (List Char) :=
  match statementLine b.kind with
  | none => []
  | some s => if b.isContainer then [indented depth s, []] else [indented depth s]

/-- The lines of a statement after those of the blocks below it. -/
def closingLines (depth : ℕ) (b : Block) : List (List Char) :=
  if b.isContainer then [indented depth ['}']] else []

variable {role : ForestRole} {o : Outline} {b : Block} {s : List Char} {depth : ℕ}

theorem not_isContainer_of_statementLine_eq_none (h : statementLine b.kind = none) :
    b.isContainer = false := by
  rw [Block.isContainer, BlockKind.isContainer, (statementLine_eq_none_iff b.kind).1 h]
  rfl

/-- **Statements** are written entry by entry. -/
theorem statementLines_eq_render (h : o.Fits role) (depth : ℕ) :
    statementLines depth o = o.render openingLines closingLines depth := by
  induction o generalizing depth with
  | nil => rfl
  | cons b below next ihBelow ihNext =>
    obtain ⟨⟨-, hloop⟩, hbelow, hnext⟩ := h
    rw [statementLines, Outline.render, openingLines, closingLines, ihNext hnext]
    by_cases hc : b.isContainer = true
    · rcases hs : statementLine b.kind with _ | s
      · exact absurd hc (by rw [not_isContainer_of_statementLine_eq_none hs]; decide)
      · dsimp only
        rw [if_pos hc, if_pos hc, if_pos hc, ihBelow hbelow]
        simp only [List.cons_append, List.nil_append, List.append_assoc]
    · have hnil : below = .nil := by
        by_contra hne
        exact hc (hloop hne)
      rw [if_neg hc, hnil]
      rcases hs : statementLine b.kind with _ | s
      · rfl
      · dsimp only
        rw [if_neg hc, if_neg hc]
        rfl

theorem openingLines_eq (h : statementLine b.kind = some s) (depth : ℕ) : openingLines depth b =
    indented depth s :: if b.isContainer then [[]] else [] := by
  rw [openingLines, h]
  dsimp only
  split <;> rfl

/-- A statement without blocks below it is one line, or as a loop three. -/
theorem render_leaf (h : statementLine b.kind = some s) (depth : ℕ) :
    (Outline.leaf b).render openingLines closingLines depth =
      if b.isContainer then [indented depth s, [], indented depth ['}']]
      else [indented depth s] := by
  rw [Outline.leaf, Outline.render_single, Outline.render, List.append_nil, openingLines_eq h,
    closingLines]
  split <;> rfl

/-- Whatever may stand among the statements has a line. -/
theorem exists_statementLine {kind : BlockKind} (h : ForestRole.statements.takes kind.tag = true) :
    ∃ s, statementLine kind = some s :=
  Option.ne_none_iff_exists'.1 fun hnone => by
    rw [(statementLine_eq_none_iff kind).1 hnone] at h
    cases h

/-! ## Documents -/

/-- The lines of a document are those of its preconditions and of its statements, among lines that
depend on neither. -/
theorem exists_lines_eq (mode : Mode) (h : Header) :
    ∃ front gap back, ∀ statements preconditions, lines mode h statements preconditions =
      front ++ (preconditions.walk.flatMap fun e => mode.preconditionLines e.2.kind) ++
        (gap ++ statementLines mode.depth statements.outline ++ back) := by
  cases mode with
  | rule =>
    refine ⟨(ruleLines h .nil).take 3, [], [['}']], fun statements preconditions => ?_⟩
    have hnone : (preconditions.walk.flatMap fun e => Mode.rule.preconditionLines e.2.kind) = [] :=
      List.flatMap_eq_nil_iff.2 fun _ _ => rfl
    rw [hnone]
    rfl
  | action =>
    refine ⟨(actionLines h .nil []).take 1 ++ descriptionLines h.description,
      [[], indented 1 ("EFFECT ".toList ++ ['{'])], [indented 1 ['}'], ['}']],
      fun statements preconditions => ?_⟩
    rw [lines, actionLines, List.flatMap_map, List.append_assoc]
    rfl

/-- The lines of a document come apart at its line breaks. -/
theorem split_write (mode : Mode) (header : Header) (S P : Forest) :
    Text.split '\n' (write mode header S P).toList = lines mode header S P := by
  rw [write, String.toList_ofList]
  exact Text.split_join (lines_ne_nil mode header S P) (says_lines mode header S P).newline_not_mem

section Edits

variable {S S' P P' : Forest} {o o' : Outline} {x x' : List (List Char)} {mode : Mode}

/-- Other statements at one position of the outline are other lines at one position. -/
theorem lines_withStatements (hS : S.Represents o) (hS' : S'.Represents o')
    (h : Spliced (o.render openingLines closingLines mode.depth)
      (o'.render openingLines closingLines mode.depth) x x') (header : Header) (P : Forest) :
    Spliced (lines mode header S P) (lines mode header S' P) x x' := by
  obtain ⟨front, gap, back, hlines⟩ := exists_lines_eq mode header
  rw [hlines, hlines, hS.outline_eq, hS'.outline_eq, statementLines_eq_render hS.fits_outline,
    statementLines_eq_render hS'.fits_outline]
  have hall := (h.around gap back).around
    (front ++ P.walk.flatMap fun e => mode.preconditionLines e.2.kind) []
  rwa [List.append_nil, List.append_nil] at hall

/-- Other preconditions at one position of the outline are other lines at one position. -/
theorem lines_withPreconditions (hP : P.Represents o) (hP' : P'.Represents o')
    (h : Spliced (o.render (fun _ b => mode.preconditionLines b.kind) (fun _ _ => []) 0)
      (o'.render (fun _ b => mode.preconditionLines b.kind) (fun _ _ => []) 0) x x')
    (header : Header) (S : Forest) :
    Spliced (lines mode header S P) (lines mode header S P') x x' := by
  obtain ⟨front, gap, back, hlines⟩ := exists_lines_eq mode header
  rw [Outline.render_eq_flatMap_walk, Outline.render_eq_flatMap_walk] at h
  rw [hlines, hlines, hP.walk_eq, hP'.walk_eq]
  exact h.around front _

variable {place : Place} {id : BlockId} {field : BlockField} {value : FieldValue}

/-- **A field of a statement** is written in the line of the statement. -/
theorem lines_update (hS : Forest.Built .statements S) (hf : S.update? id field value = some S')
    (mode : Mode) (header : Header) (P : Forest) :
    ∃ k b line line', S.get? id = some b ∧ (k, b) ∈ S.walk ∧ statementLine b.kind = some line ∧
      statementLine (b.kind.withField field value) = some line' ∧
      Spliced (lines mode header S P) (lines mode header S' P)
        [indented (mode.depth + k) line] [indented (mode.depth + k) line'] := by
  obtain ⟨b, hb⟩ := Forest.exists_get?_of_update? hf
  have hr := hS.represents
  have hr' := hr.updated_of_update? hf
  obtain ⟨hfind, -, -, ⟨⟨htakes, -⟩, -⟩⟩ := hr.exists_entry hb
  rw [hS.role_eq] at htakes
  obtain ⟨line, hline⟩ := exists_statementLine htakes
  have hloop : Block.isContainer { b with kind := b.kind.withField field value } = b.isContainer :=
    congrArg (· == BlockTag.forEach) (b.kind.tag_withField field value)
  obtain ⟨line', hline'⟩ := exists_statementLine
    ((congrArg ForestRole.statements.takes (b.kind.tag_withField field value)).trans htakes)
  obtain ⟨k, hk, hsplice⟩ := Outline.spliced_updated openingLines closingLines hr.nodup hfind field
    value fun depth => by rw [closingLines, closingLines, hloop]
  refine ⟨k, b, line, line', hb, hr.walk_eq ▸ hk, hline, hline', ?_⟩
  refine (lines_withStatements hr hr' (hsplice mode.depth) header P).trans ?_
  rw [openingLines_eq hline, openingLines_eq hline', hloop]
  exact ⟨[], _, rfl, rfl⟩

/-- **A new statement** comes with its own lines. -/
theorem lines_add (hS : Forest.Built .statements S) (hf : S.add? place b = some S') (mode : Mode)
    (header : Header) (P : Forest) :
    ∃ k line, (k, b) ∈ S'.walk ∧ statementLine b.kind = some line ∧
      Spliced (lines mode header S P) (lines mode header S' P) []
        (if b.isContainer then
          [indented (mode.depth + k) line, [], indented (mode.depth + k) ['}']]
        else [indented (mode.depth + k) line]) := by
  have hr := hS.represents
  have hr' := hr.push_of_add? hf
  obtain ⟨l, hl, -⟩ := hr.add hf
  have htakes := Forest.takes_of_admits (Forest.add?_eq_some_iff.1 hf).2.1
  rw [hS.role_eq] at htakes
  obtain ⟨line, hline⟩ := exists_statementLine htakes
  obtain ⟨k, hk, hsplice⟩ := Outline.spliced_push openingLines closingLines hr.nodup b hl
  refine ⟨k, line, hr'.walk_eq ▸ hk, hline, ?_⟩
  rw [← render_leaf hline]
  exact lines_withStatements hr hr' (hsplice mode.depth) header P

/-- **A removed statement** takes away its lines and those of the blocks below it. -/
theorem lines_remove (hS : Forest.Built .statements S) (hf : S.remove? id = some S') (mode : Mode)
    (header : Header) (P : Forest) :
    ∃ k b below, b.id = id ∧ (k, b) ∈ S.walk ∧ S.outline.below? id = some below ∧
      Spliced (lines mode header S P) (lines mode header S' P)
        (statementLines (mode.depth + k) (.cons b below .nil)) [] := by
  have hr := hS.represents
  have hr' := hr.removed_of_remove? hf
  obtain ⟨b, hb⟩ := Forest.exists_get?_of_remove? hf
  obtain ⟨hfind, below, hbelow, hfits⟩ := hr.exists_entry hb
  obtain ⟨k, hk, hsplice⟩ := Outline.spliced_removed openingLines closingLines hr.nodup hfind
    hbelow
  refine ⟨k, b, below, Forest.id_of_get? hb, hr.walk_eq ▸ hk, hbelow, ?_⟩
  rw [statementLines_eq_render hfits]
  exact lines_withStatements hr hr' (hsplice mode.depth) header P

/-- **A field of a precondition** is written in the lines of the precondition. -/
theorem lines_updatePrecondition (hP : Forest.Built .preconditions P)
    (hf : P.update? id field value = some P') (mode : Mode) (header : Header) (S : Forest) :
    ∃ b, P.get? id = some b ∧ Spliced (lines mode header S P) (lines mode header S P')
      (mode.preconditionLines b.kind) (mode.preconditionLines (b.kind.withField field value)) := by
  have hr := hP.represents
  have hr' := hr.updated_of_update? hf
  obtain ⟨b, hb⟩ := Forest.exists_get?_of_update? hf
  obtain ⟨hfind, -⟩ := hr.exists_entry hb
  obtain ⟨k, -, hsplice⟩ := Outline.spliced_updated
    (fun _ b => mode.preconditionLines b.kind) (fun _ _ => []) hr.nodup hfind field value
    fun _ => rfl
  exact ⟨b, hb, lines_withPreconditions hr hr' (hsplice 0) header S⟩

/-- **A new precondition** comes with its own lines. -/
theorem lines_addPrecondition (hP : Forest.Built .preconditions P) (hf : P.add? place b = some P')
    (mode : Mode) (header : Header) (S : Forest) :
    Spliced (lines mode header S P) (lines mode header S P') []
      (mode.preconditionLines b.kind) := by
  have hr := hP.represents
  have hr' := hr.push_of_add? hf
  obtain ⟨l, hl, -⟩ := hr.add hf
  obtain ⟨k, -, hsplice⟩ := Outline.spliced_push
    (fun _ b => mode.preconditionLines b.kind) (fun _ _ => []) hr.nodup b hl
  have h := lines_withPreconditions hr hr' (hsplice 0) header S
  rwa [Outline.leaf, Outline.render_single, Outline.render, List.append_nil, List.append_nil] at h

/-- **A removed precondition** takes away its lines. -/
theorem lines_removePrecondition (hP : Forest.Built .preconditions P)
    (hf : P.remove? id = some P') (mode : Mode) (header : Header) (S : Forest) :
    ∃ b, P.get? id = some b ∧ Spliced (lines mode header S P) (lines mode header S P')
      (mode.preconditionLines b.kind) [] := by
  have hr := hP.represents
  have hr' := hr.removed_of_remove? hf
  obtain ⟨b, hb⟩ := Forest.exists_get?_of_remove? hf
  obtain ⟨hfind, below, hbelow, ⟨⟨htakes, hloop⟩, -⟩⟩ := hr.exists_entry hb
  rw [hP.role_eq] at htakes
  -- Only loops have blocks below them, and no precondition is one.
  obtain rfl : below = .nil := by
    by_contra hne
    cases ForestRole.eq_statements_of_takes htakes (hloop hne)
  obtain ⟨k, -, hsplice⟩ := Outline.spliced_removed
    (fun _ b => mode.preconditionLines b.kind) (fun _ _ => []) hr.nodup hfind hbelow
  refine ⟨b, hb, ?_⟩
  have h := lines_withPreconditions hr hr' (hsplice 0) header S
  rwa [Outline.render_single, Outline.render, List.append_nil, List.append_nil] at h

end Edits

end Script

end Blockscript
