import Blockscript.Proofs.Script.Rebuilt

/-!
# Stable documents

Writing a document, reading it and writing it again gives the same text exactly if its calls are
settled, that is, if no argument comes out without a value (`write_parse_eq_iff`): a settled
statement is written as its normal form is, and what two readings agree on is settled.
-/

namespace Blockscript

open Text

namespace BlockKind

/-- Whether no argument of a call comes out without a value. Other kinds are always settled. -/
def Settled (kind : BlockKind) : Prop :=
  ∀ c, kind = .call c → ∀ a ∈ Clean.args c.args, a.value ≠ ""

/-! ## Normal forms are cleaned -/

theorem filterText_optional (conditions : Option String) :
    Script.filterText (Clean.optional conditions) = Script.filterText conditions := by
  rw [Script.filterText, Script.filterText, Clean.oneLine_optional]

theorem failureLines_optional (message : Option String) :
    Script.failureLines (Clean.optional message) = Script.failureLines message := by
  rw [Script.failureLines, Script.failureLines, Clean.oneLine_optional]

theorem callLine_normal {c : Call} (h : Clean.args (Clean.args c.args) = Clean.args c.args) :
    Script.callLine ⟨String.ofList (Clean.productText c.product),
      String.ofList (Clean.name "method" c.method), Clean.args c.args⟩ = Script.callLine c := by
  rw [Line.callLine_eq, Line.callLine_eq, Clean.product_productText,
    Clean.name_name (by decide), h]

/-- The line of a settled statement is that of its normal form. -/
theorem statementLine_normal {kind : BlockKind} (h : kind.Settled) :
    Script.statementLine kind.normal = Script.statementLine kind := by
  cases kind with
  | set target value =>
    rw [normal, Script.statementLine, Script.statementLine, Clean.path_path (by decide),
      Clean.line_line Arguments.inline_quotes (by decide)]
  | trigger entity action target =>
    rw [normal, Script.statementLine, Script.statementLine, Clean.name_name (by decide),
      Clean.name_name (by decide),
      Clean.line_line (by decide) (by decide)]
  | forEach binder entity conditions =>
    rw [normal, Script.statementLine, Script.statementLine, Clean.name_name (by decide),
      Clean.name_name (by decide), filterText_optional]
  | precondition label conditions message => rfl
  | call c =>
    have hargs := (Arguments.args_args_iff c.args).2 (h c rfl)
    exact congrArg some (callLine_normal hargs)

/-- The lines of a precondition are those of its normal form. -/
theorem preconditionLines_normal (kind : BlockKind) :
    Script.preconditionLines kind.normal = Script.preconditionLines kind := by
  cases kind with
  | precondition label conditions message =>
    rw [normal, Script.preconditionLines, Script.preconditionLines,
      Clean.name_name (by decide),
      Clean.line_line (by decide) (by decide), failureLines_optional]
  | _ => rfl

/-- A kind that is its own normal form but for the identifiers is settled. -/
theorem settled_of_normal_normal {kind : BlockKind} (h : kind.normal.normal = kind.normal) :
    kind.Settled := by
  rintro c rfl
  rw [normal, normal] at h
  exact (Arguments.args_args_iff c.args).1 (Call.mk.inj (BlockKind.call.inj h)).2.2

end BlockKind

/-! ## Bodies -/

theorem statementLines_numbered (depth n : ℕ) (o : Outline) :
    Script.statementLines depth (o.numbered n) = Script.statementLines depth o := by
  induction o generalizing depth n with
  | nil => rfl
  | cons b below next ihBelow ihNext =>
    rw [Outline.numbered, Script.statementLines, Script.statementLines, ihBelow, ihNext]
    rfl

/-- The lines of settled statements are those of their normal forms. -/
theorem statementLines_normal {o : Outline} (h : ∀ kind ∈ o.kinds, kind.Settled) (depth : ℕ) :
    Script.statementLines depth (o.mapKind BlockKind.normal) = Script.statementLines depth o := by
  induction o generalizing depth with
  | nil => rfl
  | cons b below next ihBelow ihNext =>
    rw [Outline.kinds, List.forall_mem_cons, List.forall_mem_append] at h
    obtain ⟨hb, hbelow, hnext⟩ := h
    rw [Outline.mapKind, Script.statementLines, Script.statementLines, ihBelow hbelow,
      ihNext hnext, BlockKind.statementLine_normal hb,
      Outline.isContainer_of_tag_eq BlockKind.tag_normal]

theorem statementLines_rebuilt {o : Outline} (h : ∀ kind ∈ o.kinds, kind.Settled) (depth n : ℕ) :
    Script.statementLines depth (o.rebuilt n) = Script.statementLines depth o := by
  rw [Outline.rebuilt, statementLines_numbered, statementLines_normal h]

theorem flatMap_preconditionLines_walk (o : Outline) (depth : ℕ) :
    ((o.walk depth).map (·.2)).flatMap (Script.preconditionLines ·.kind) =
      o.kinds.flatMap Script.preconditionLines := by
  rw [← o.map_walk_kind depth, List.flatMap_map, List.flatMap_map]

theorem preconditionLines_rebuilt (o : Outline) (n : ℕ) :
    (o.rebuilt n).kinds.flatMap Script.preconditionLines =
      o.kinds.flatMap Script.preconditionLines := by
  rw [Outline.kinds_rebuilt, List.flatMap_map]
  exact List.flatMap_congr fun kind _ => kind.preconditionLines_normal

/-! ## Documents -/

namespace Script

variable {S P : Forest} (hS : Forest.Built .statements S) (hP : Forest.Built .preconditions P)

include hS hP

/-- What reading rebuilds from settled statements and preconditions is written as these. -/
theorem lines_rebuilt (h : ∀ kind ∈ S.outline.kinds, kind.Settled) (mode : Mode) (header : Header)
    (n : ℕ) :
    lines mode header (rebuilt mode n S.outline P.outline).statements
        (rebuilt mode n S.outline P.outline).preconditions =
      lines mode header S P := by
  obtain ⟨m, hm⟩ := exists_represents_statements hS.fits mode n P.outline
  cases mode with
  | rule => rw [lines, lines, hm.outline_eq, ruleLines, ruleLines, statementLines_rebuilt h]
  | action =>
    rw [lines, lines, hm.outline_eq, (represents_preconditions hP.fits n S.outline).walk_eq,
      hP.represents.walk_eq, actionLines, actionLines, statementLines_rebuilt h,
      flatMap_preconditionLines_walk, flatMap_preconditionLines_walk, preconditionLines_rebuilt]

/-- What a second reading leaves as it is was settled. -/
theorem settled_of_write_eq {mode : Mode} {header : Header} {n : ℕ}
    (h : write mode header (rebuilt mode n S.outline P.outline).statements
        (rebuilt mode n S.outline P.outline).preconditions = write mode header S P) :
    ∀ kind ∈ S.outline.kinds, kind.Settled := by
  obtain ⟨hS', hP'⟩ := built_rebuilt mode n S.outline P.outline
  have hparse := parse_of_said hS hP (map_read_sourceLines mode header S P) .initial
  rw [← h, parse_of_said hS' hP' (map_read_sourceLines mode header _ _) .initial] at hparse
  -- The same text is read as the same blocks, whose kinds went through one cleaning and two.
  obtain ⟨m, hm⟩ := exists_represents_statements hS.fits mode n P.outline
  obtain ⟨m₁, h₁⟩ := exists_represents_statements hS.fits mode IdSupply.initial.next P.outline
  obtain ⟨m₂, h₂⟩ := exists_represents_statements hS'.fits mode IdSupply.initial.next
    (rebuilt mode n S.outline P.outline).preconditions.outline
  have hkinds := congrArg (fun r : Script => r.statements.outline.kinds) hparse
  rw [h₁.outline_eq, h₂.outline_eq, hm.outline_eq, Outline.kinds_rebuilt, Outline.kinds_rebuilt,
    Outline.kinds_rebuilt, List.map_map, List.map_inj_left] at hkinds
  exact fun kind hk => BlockKind.settled_of_normal_normal (hkinds kind hk)

/-- **A second reading** of what was written leaves the text as it is exactly if the statements are
settled. -/
theorem write_parse_eq_iff {mode : Mode} {header : Header} {text : String}
    (htext : (sourceLines text).map (Line.read ·.text) = said mode header S P) (ids : IdSupply) :
    write mode header (parse mode ids text).1.statements (parse mode ids text).1.preconditions =
        write mode header S P ↔
      ∀ e ∈ S.walk, e.2.kind.Settled := by
  rw [parse_of_said hS hP htext, hS.represents.forall_walk_iff]
  constructor
  · exact settled_of_write_eq hS hP
  · intro h
    rw [write, write, lines_rebuilt hS hP h]

end Script

end Blockscript
