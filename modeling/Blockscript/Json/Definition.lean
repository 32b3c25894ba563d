import Blockscript.Json.Header
import Blockscript.Json.Parser
import Blockscript.Store.Definition

/-!
# Stored definitions as JSON

A definition is an object whose member `kind` says whether the rest is the record of a rule or of an
action; as an array, the kind comes first. The rest is kept until the kind is known, so all of it
has to be in order, also members that are passed over afterwards.
-/

namespace Blockscript

open Json

namespace RuleDefinition

/-- The members of the record. -/
def toMembers (r : RuleDefinition) : List (String × Json) :=
  [("name", .str r.name), ("dsl_text", .str r.text), ("priority", ofWord r.priority),
    ("trigger", ofOption Trigger.toJson r.trigger), ("active", .bool r.active)]

/-- The record of a rule. -/
def toJson (r : RuleDefinition) : Json := .obj r.toMembers

/-- Reads the record of a rule. -/
def ofJson : Decoder RuleDefinition :=
  Decoder.record
    [{ name := "name" }, { name := "dsl_text", second := some "dslText" }, { name := "priority" },
      { name := "trigger", optional := true }, { name := "active", optional := true }]
    fun levels values =>
      match values with
      | [name, text, priority, trigger, active] => do
        let name ← Decoder.required Decoder.string levels name
        let text ← Decoder.required Decoder.string levels text
        let priority ← Decoder.required Decoder.word levels priority
        let trigger ← Decoder.orElse (Decoder.nullable Trigger.ofJson) none levels trigger
        let active ← Decoder.orElse Decoder.bool true levels active
        some { name, text, priority, trigger, active }
      | _ => none

end RuleDefinition

namespace ActionDefinition

/-- The members of the record. -/
def toMembers (a : ActionDefinition) : List (String × Json) :=
  [("name", .str a.name), ("dsl_text", .str a.text), ("entity_type", .str a.entityType),
    ("description", ofOption .str a.description), ("active", .bool a.active)]

/-- The record of an action. -/
def toJson (a : ActionDefinition) : Json := .obj a.toMembers

/-- Reads the record of an action. -/
def ofJson : Decoder ActionDefinition :=
  Decoder.record
    [{ name := "name" }, { name := "dsl_text", second := some "dslText" },
      { name := "entity_type", second := some "entityType" },
      { name := "description", optional := true }, { name := "active", optional := true }]
    fun levels values =>
      match values with
      | [name, text, entityType, description, active] => do
        let name ← Decoder.required Decoder.string levels name
        let text ← Decoder.required Decoder.string levels text
        let entityType ← Decoder.required Decoder.string levels entityType
        let description ← Decoder.orElse (Decoder.nullable Decoder.string) none levels description
        let active ← Decoder.orElse Decoder.bool true levels active
        some { name, text, entityType, description, active }
      | _ => none

end ActionDefinition

namespace Definition

/-- The record with its kind in front. -/
def toJson : Definition → Json
  | .rule r => .obj (("kind", .str "rule") :: r.toMembers)
  | .action a => .obj (("kind", .str "action") :: a.toMembers)

/-- The kind of a definition, and the record without it. -/
def splitKind : Json → Option (String × Json)
  | .obj members =>
    match members.filter fun kv => kv.1 == "kind" with
    | [(_, .str kind)] => some (kind, .obj (members.filter fun kv => kv.1 != "kind"))
    | _ => none
  | .arr (.str kind :: items) => some (kind, .arr items)
  | _ => none

/-- Reads a definition. -/
def ofJson : Decoder Definition := fun levels j =>
  match splitKind j with
  | some (kind, record) =>
    if record.keeps levels then
      match kind with
      | "rule" => (RuleDefinition.ofJson levels record).map Definition.rule
      | "action" => (ActionDefinition.ofJson levels record).map Definition.action
      | _ => none
    else none
  | none => none

/-- The definition that a text writes in JSON. -/
def parse? (text : String) : Option Definition := (Json.parse text).bind (ofJson maxLevels)

end Definition

/-- The store of the definitions that a text lists in JSON. -/
def Store.parse? (text : String) : Option Store :=
  ((Json.parse text).bind (Decoder.list Definition.ofJson maxLevels)).map Store.ofList

end Blockscript
