import Blockscript.Proofs.Script.HeaderRead

/-!
# Headers field by field

What is found in the header of a written document, told from the fields that it was written from. A
rule comes back with all its fields (`header?_write_rule`). So does an action but for its
parameters, each of which is read from its own text; they come back exactly if no type holds a
comma and the type of no required one ends in a question mark (`header?_write_action`).
-/

namespace Blockscript

namespace Text

/-! ## Cleaned text -/

/-- A text on one line and without blanks at its ends, or the placeholder for a blank one. -/
def lineOr (placeholder text : String) : String :=
  if Blanks text.toList then placeholder else String.ofList (oneLine text.toList)

/-- The name characters of a text, or the placeholder if it has none. -/
def nameOr (placeholder text : String) : String :=
  if ∀ c ∈ text.toList, isName c = false then placeholder
  else String.ofList (text.toList.filter isName)

theorem ofList_line (placeholder text : String) :
    String.ofList (Clean.line placeholder text) = lineOr placeholder text := by
  unfold Clean.line Clean.orElse lineOr
  by_cases h : Blanks text.toList
  · rw [if_pos (oneLine_eq_nil_iff.2 h), if_pos h, String.ofList_toList]
  · rw [if_neg fun hn => h (oneLine_eq_nil_iff.1 hn), if_neg h]

theorem ofList_name (placeholder text : String) :
    String.ofList (Clean.name placeholder text) = nameOr placeholder text := by
  have hnil : text.toList.filter isName = [] ↔ ∀ c ∈ text.toList, isName c = false := by
    simp only [List.filter_eq_nil_iff, Bool.not_eq_true]
  unfold Clean.name Clean.orElse nameOr
  by_cases h : ∀ c ∈ text.toList, isName c = false
  · rw [if_pos (hnil.2 h), if_pos h, String.ofList_toList]
  · rw [if_neg fun hn => h (hnil.1 hn), if_neg h]

theorem optional_eq (text : Option String) : Clean.optional text =
    text.bind fun t =>
      if Blanks t.toList then none else some (String.ofList (oneLine t.toList)) := by
  cases text with
  | none => rfl
  | some t =>
    rw [Option.bind_some]
    by_cases h : Blanks t.toList
    · rw [if_pos h]
      exact Clean.optional_eq_none (oneLine_eq_nil_iff.2 h)
    · rw [if_neg h]
      exact Clean.optional_eq_some fun hn => h (oneLine_eq_nil_iff.1 hn)

end Text

open Text Line

/-! ## Parameters -/

namespace Parameter

theorem written_eq (p : Parameter) :
    p.written = ⟨nameOr "param" p.name, lineOr "Any" p.type, p.optional⟩ := by
  rw [written, ofList_name, ofList_line]

end Parameter

namespace Script

/-! ## Rules -/

theorem written_property_eq_some_iff (t : Option Trigger) (property : String) :
    (Trigger.written t).property = some property ↔
      (Trigger.written t).event = "UPDATE" ∧ property ≠ "" ∧
        ∃ text, t.bind (·.property) = some text ∧ property = nameOr "" text := by
  cases t with
  | none =>
    constructor
    · rintro ⟨⟩
    · rintro ⟨-, -, _, ⟨⟩, -⟩
  | some t =>
    have hupdate : Clean.name "UPDATE" t.event = "UPDATE".toList ↔
        nameOr "UPDATE" t.event = "UPDATE" := by
      rw [← ofList_name, ← String.ofList_inj, String.ofList_toList]
    have hkept : Clean.name "" (t.property.getD "") ≠ [] ↔ nameOr "" (t.property.getD "") ≠ "" := by
      rw [← ofList_name, Ne, Ne, String.ofList_eq_empty_iff]
    rw [Trigger.written]
    dsimp only
    rw [Option.bind_some, Option.ite_none_right_eq_some, hupdate, hkept, ofList_name, ofList_name]
    cases t.property with
    | none =>
      have hnone : nameOr "" "" = "" := by decide
      constructor
      · rintro ⟨⟨-, hne⟩, -⟩
        exact absurd hnone hne
      · rintro ⟨-, -, _, ⟨⟩, -⟩
    | some text =>
      constructor
      · rintro ⟨⟨hevent, hne⟩, heq⟩
        cases heq
        exact ⟨hevent, hne, text, rfl, rfl⟩
      · rintro ⟨hevent, hne, _, htext, rfl⟩
        cases htext
        exact ⟨⟨hevent, hne⟩, rfl⟩

/-- **The header of a rule** is found with its name on one line and its priority. The trigger has
the name characters of its event and of its entity; a property is kept if the event is an update
and the property has name characters. -/
theorem header?_write_rule (h : Header) (statements preconditions : Forest) :
    ∃ trigger : Trigger,
      header? .rule (write .rule h statements preconditions) =
        some
          { name := lineOr "Untitled" h.name
            priority := some (h.priority.getD 100)
            trigger := some trigger
            entityType := none
            description := none
            parameters := [] } ∧
      trigger.event = nameOr "UPDATE" ((h.trigger.map (·.event)).getD "") ∧
      trigger.entity = nameOr "Entity" ((h.trigger.map (·.entity)).getD "") ∧
      ∀ property, trigger.property = some property ↔
        trigger.event = "UPDATE" ∧ property ≠ "" ∧
          ∃ text, h.trigger.bind (·.property) = some text ∧ property = nameOr "" text := by
  refine ⟨Trigger.written h.trigger, ?_, ?_, ?_, written_property_eq_some_iff h.trigger⟩
  · rw [header?_rule_write, Header.written, ofList_line]
  · cases h.trigger with
    | none => decide
    | some t => exact ofList_name "UPDATE" t.event
  · cases h.trigger with
    | none => decide
    | some t => exact ofList_name "Entity" t.entity

/-- A name may look like the rest of its line. -/
example : header? .rule (write .rule { name := "a PRIORITY 5 \x7b" } (.empty .statements)
    (.empty .preconditions)) =
      some (.rule "a PRIORITY 5 \x7b" 100 { event := "UPDATE", entity := "Entity" }) := by
  decide +kernel

/-! ## Actions -/

/-- **The header of an action** is found with its name without parentheses and on one line, the name
characters of its entity type and its description on one line. Each parameter is read from its own
text. They come back cleaned, as many and in the same order, exactly if no type holds a comma and
the type of no required parameter ends in a question mark. -/
theorem header?_write_action (h : Header) (statements preconditions : Forest) :
    header? .action (write .action h statements preconditions) =
        some
          { name := lineOr "Untitled"
              (String.ofList (h.name.toList.filter fun c => c ≠ '(' ∧ c ≠ ')'))
            priority := none
            trigger := none
            entityType := some (nameOr "Entity" (h.entityType.getD ""))
            description := h.description.bind fun text =>
              if Blanks text.toList then none else some (String.ofList (oneLine text.toList))
            parameters := h.parameters.flatMap fun p => readParameters (parameterText p) } ∧
      ((h.parameters.flatMap fun p => readParameters (parameterText p)) =
          h.parameters.map (fun p => ⟨nameOr "param" p.name, lineOr "Any" p.type, p.optional⟩) ↔
        ∀ p ∈ h.parameters, ',' ∉ p.type.toList ∧
          (p.optional = false → (oneLine p.type.toList).getLast? ≠ some '?')) := by
  constructor
  · rw [header?_action_write, Header.written, Parameter.readParameters_body, actionName]
    dsimp only
    rw [ofList_line, ofList_name, optional_eq]
  · have hwritten : h.parameters.map (fun p =>
        (⟨nameOr "param" p.name, lineOr "Any" p.type, p.optional⟩ : Parameter)) =
        h.parameters.map Parameter.written :=
      List.map_congr_left fun p _ => p.written_eq.symm
    rw [hwritten, ← Parameter.readParameters_body, Parameter.readParameters_eq_iff]
    exact forall₂_congr fun p _ => Parameter.readable_iff

/-- An action with one parameter, whose type holds a comma. -/
def shipment : Header :=
  (Header.action "ship" "Order").withParameter { name := "items", type := "Map<String, Int>" }

/-- The comma ends the type, although nothing in the header asks for cleaning. -/
theorem header?_write_shipment :
    shipment.parameters.map (fun p => ⟨nameOr "param" p.name, lineOr "Any" p.type, p.optional⟩) =
        shipment.parameters ∧
      header? .action (write .action shipment (.empty .statements) (.empty .preconditions)) =
        some { shipment with parameters := [{ name := "items", type := "Map<String" }] } ∧
      header? .action (write .action shipment (.empty .statements) (.empty .preconditions)) ≠
        some shipment := by
  decide +kernel

end Script

end Blockscript
