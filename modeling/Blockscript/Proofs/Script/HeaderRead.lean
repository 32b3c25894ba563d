import Blockscript.Proofs.Script.Parsed

/-!
# Headers read back

The header of a written document is the one that it was written from, as written (`header?_write`),
and it is written the same again (`lines_written`). The parameters must be such that they can be
read back, as those of every header that was read are (`readable_header?`).
-/

namespace Blockscript

open Text Line

/-- The header that a document of some mode has for another. -/
def Header.written (h : Header) : Mode → Header
  | .rule =>
    { name := String.ofList (Clean.line "Untitled" h.name)
      priority := some (h.priority.getD 100)
      trigger := some (Trigger.written h.trigger) }
  | .action =>
    { name := String.ofList (Script.actionName h.name)
      entityType := some (String.ofList (Clean.name "Entity" (h.entityType.getD "")))
      description := Clean.optional h.description
      parameters := h.parameters.map Parameter.written }

/-- Whether the parameters of a header can be read back. -/
def Header.Readable (h : Header) : Prop := ∀ p ∈ h.parameters, p.Readable

theorem Header.readable_blank : Header.blank.Readable := fun _ hp => absurd hp List.not_mem_nil

namespace Script

/-! ## Reading what was written -/

theorem descriptionLine?_append {ls : List Line} (h : descriptionLine? ls = none) (ms : List Line) :
    descriptionLine? (ls ++ ms) = descriptionLine? ms := by
  fun_induction descriptionLine? ls with
  | case1 => rfl
  | case2 => cases h
  | case3 l ls hl ih =>
    rw [List.cons_append, ← ih h]
    cases l <;> first | rfl | exact absurd rfl (hl _)

theorem descriptionLine?_outline (o : Outline) : descriptionLine? o.said = none := by
  induction o with
  | nil => rfl
  | cons b below next ihBelow ihNext =>
    rw [Outline.said]
    split
    · exact ihNext
    · split
      · show descriptionLine? (below.said ++ .close :: next.said) = none
        rw [descriptionLine?_append ihBelow]
        exact ihNext
      · exact ihNext

theorem descriptionLine?_preconditions (bs : List Block) :
    descriptionLine? (bs.flatMap (·.kind.said)) = none := by
  induction bs with
  | nil => rfl
  | cons b bs ih =>
    have hb : descriptionLine? b.kind.said = none := by
      cases b.kind with
      | precondition label conditions message =>
        rw [BlockKind.said, failureSaid]
        cases Clean.optional message <;> rfl
      | _ => rfl
    rw [List.flatMap_cons, descriptionLine?_append hb, ih]

theorem descriptionLine?_said (h : Header) (statements preconditions : Forest) :
    descriptionLine? (said .action h statements preconditions) = Clean.optional h.description := by
  have hbody : descriptionLine?
      (bodySaid statements.outline (preconditions.walk.map (·.2)) .action) = none := by
    rw [bodySaid, descriptionLine?_append (descriptionLine?_preconditions _)]
    show descriptionLine? (statements.outline.said ++ [.close, .close]) = none
    rw [descriptionLine?_append (descriptionLine?_outline _)]
    rfl
  show descriptionLine? (descriptionSaid h.description ++ _) = _
  rw [descriptionSaid]
  cases Clean.optional h.description with
  | none => exact hbody
  | some s => rfl

theorem header?_rule_write (h : Header) (statements preconditions : Forest) :
    header? .rule (write .rule h statements preconditions) = some (h.written .rule) := by
  unfold header?
  dsimp only
  rw [map_read_sourceLines]
  rfl

/-- The parameters of an action are what is read between the parentheses. -/
theorem header?_action_write (h : Header) (statements preconditions : Forest) :
    header? .action (write .action h statements preconditions) =
      some { h.written .action with
        parameters := readParameters (parametersBody h.parameters) } := by
  unfold header?
  dsimp only
  rw [map_read_sourceLines, descriptionLine?_said]
  rfl

/-- **Reading the header** of a written document. -/
theorem header?_write (mode : Mode) {h : Header} (hh : h.Readable)
    (statements preconditions : Forest) :
    header? mode (write mode h statements preconditions) = some (h.written mode) := by
  cases mode with
  | rule => exact header?_rule_write h statements preconditions
  | action =>
    rw [header?_action_write, Parameter.readParameters_written hh]
    rfl

/-! ## Writing what was read -/

theorem triggerText_written (t : Option Trigger) :
    triggerText (some (Trigger.written t)) = triggerText t := by
  cases t with
  | none => decide
  | some t =>
    rw [triggerText_some, triggerText_some, Trigger.written]
    dsimp only
    rw [Clean.name_name (by decide), Clean.name_name (by decide)]
    by_cases h : Clean.name "UPDATE" t.event = "UPDATE".toList ∧
        Clean.name "" (t.property.getD "") ≠ []
    · have hproperty : Clean.name "" (String.ofList (Clean.name "" (t.property.getD ""))) =
          Clean.name "" (t.property.getD "") := by
        have hw : IsWordOf isName (Clean.name "" (t.property.getD "")) :=
          ⟨h.2, isName_of_mem_property _⟩
        rw [Clean.name_eq_self (by rwa [String.toList_ofList]), String.toList_ofList]
      rw [if_pos h, Option.getD_some, hproperty]
    · have hnone : Clean.name "" "" = [] := by decide
      rw [if_neg h, Option.getD_none, hnone, if_neg h, if_neg fun h => h.2 rfl]

theorem actionName_actionName (name : String) :
    actionName (String.ofList (actionName name)) = actionName name := by
  have hkeep : (actionName name).filter (fun c => c ≠ '(' ∧ c ≠ ')') = actionName name := by
    refine List.filter_eq_self.2 fun c hc => decide_eq_true ⟨?_, ?_⟩
    · rintro rfl
      exact paren_not_mem_actionName name (.inl rfl) hc
    · rintro rfl
      exact paren_not_mem_actionName name (.inr rfl) hc
  have hline : Clean.line "Untitled" (String.ofList (actionName name)) = actionName name :=
    Clean.line_line (by decide) (by decide) _
  rw [actionName, String.toList_ofList, hkeep, hline]

theorem descriptionLines_optional (description : Option String) :
    descriptionLines (Clean.optional description) = descriptionLines description := by
  rw [descriptionLines, descriptionLines, Clean.oneLine_optional]

/-- **Writing the header** that a written document has gives the same lines. -/
theorem lines_written (mode : Mode) (h : Header) (statements preconditions : Forest) :
    lines mode (h.written mode) statements preconditions =
      lines mode h statements preconditions := by
  cases mode with
  | rule =>
    rw [lines, lines, ruleLines, ruleLines, Header.written]
    dsimp only
    rw [Clean.line_line (by decide) (by decide), triggerText_written,
      Option.getD_some]
  | action =>
    rw [lines, lines, actionLines, actionLines, Header.written]
    dsimp only
    rw [actionName_actionName, descriptionLines_optional, Option.getD_some,
      Clean.name_name (by decide), Parameter.parametersText_map_written]

theorem write_written (mode : Mode) (h : Header) (statements preconditions : Forest) :
    write mode (h.written mode) statements preconditions =
      write mode h statements preconditions := by
  rw [write, lines_written, write]

/-! ## Headers that were read -/

theorem actionHeader_mem_of_actionLine? {ls : List Line} {e n : String} {ps : List Parameter}
    (h : actionLine? ls = some (e, n, ps)) : .actionHeader e n ps ∈ ls := by
  fun_induction actionLine? ls with
  | case1 => cases h
  | case2 =>
    cases h
    exact List.mem_cons_self
  | case3 l ls _ ih => exact List.mem_cons_of_mem _ (ih h)

theorem readable_header? {mode : Mode} {text : String} {h : Header}
    (hh : header? mode text = some h) : h.Readable := by
  unfold header? at hh
  cases mode with
  | rule =>
    obtain ⟨r, -, rfl⟩ := Option.map_eq_some_iff.1 hh
    exact Header.readable_blank
  | action =>
    obtain ⟨⟨e, n, ps⟩, hline, rfl⟩ := Option.map_eq_some_iff.1 hh
    obtain ⟨l, -, hread⟩ := List.mem_map.1 (actionHeader_mem_of_actionLine? hline)
    have hlisted := listed_read l.text
    rw [hread] at hlisted
    exact hlisted

theorem readable_header?_getD (mode : Mode) (text : String) :
    ((header? mode text).getD .blank).Readable := by
  cases h : header? mode text with
  | none => exact Header.readable_blank
  | some header => exact readable_header? h

end Script

end Blockscript
