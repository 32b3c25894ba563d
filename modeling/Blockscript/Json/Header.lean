import Blockscript.Json.Decoder
import Blockscript.Script.Header

/-!
# Headers as JSON

The JSON shapes of modes, triggers, parameters and headers. Every member of a header may be missing.
-/

namespace Blockscript

open Json

/-- The mode of that keyword. -/
def Mode.ofKeyword? : String → Option Mode
  | "RULE" => some .rule
  | "ACTION" => some .action
  | _ => none

/-- The keyword. -/
def Mode.toJson (m : Mode) : Json := .str m.keyword

/-- Reads a mode. -/
def Mode.ofJson : Decoder Mode := Decoder.choice Mode.ofKeyword?

/-- Event, entity and property. -/
def Trigger.toJson (t : Trigger) : Json :=
  .obj [("type", .str t.event), ("entity", .str t.entity), ("property", ofOption .str t.property)]

/-- Reads a trigger. -/
def Trigger.ofJson : Decoder Trigger :=
  Decoder.record
    [{ name := "type" }, { name := "entity" }, { name := "property", optional := true }]
    fun levels values =>
      match values with
      | [event, entity, property] => do
        let event ← Decoder.required Decoder.string levels event
        let entity ← Decoder.required Decoder.string levels entity
        let property ← Decoder.orElse (Decoder.nullable Decoder.string) none levels property
        some { event, entity, property }
      | _ => none

/-- Name, type and whether it may be left out. -/
def Parameter.toJson (p : Parameter) : Json :=
  .obj [("name", .str p.name), ("type", .str p.type), ("optional", .bool p.optional)]

/-- Reads a parameter. -/
def Parameter.ofJson : Decoder Parameter :=
  Decoder.record [{ name := "name" }, { name := "type" }, { name := "optional", optional := true }]
    fun levels values =>
      match values with
      | [name, type, optional] => do
        let name ← Decoder.required Decoder.string levels name
        let type ← Decoder.required Decoder.string levels type
        let optional ← Decoder.orElse Decoder.bool false levels optional
        some { name, type, optional }
      | _ => none

/-- A whole number of 64 bits. -/
def ofWord (w : Int64) : Json := .int w.toInt

/-- All members of a header. -/
def Header.toJson (h : Header) : Json :=
  .obj [("name", .str h.name), ("priority", ofOption ofWord h.priority),
    ("trigger", ofOption Trigger.toJson h.trigger), ("entity_type", ofOption .str h.entityType),
    ("description", ofOption .str h.description),
    ("parameters", .arr (h.parameters.map Parameter.toJson))]

/-- The members of a header. -/
def Header.members : List Member :=
  [{ name := "name", optional := true }, { name := "priority", optional := true },
    { name := "trigger", optional := true },
    { name := "entity_type", second := some "entityType", optional := true },
    { name := "description", optional := true }, { name := "parameters", optional := true }]

/-- Reads a header. -/
def Header.ofJson : Decoder Header :=
  Decoder.record Header.members fun levels values =>
    match values with
    | [name, priority, trigger, entityType, description, parameters] => do
      let name ← Decoder.orElse Decoder.string "" levels name
      let priority ← Decoder.orElse (Decoder.nullable Decoder.word) none levels priority
      let trigger ← Decoder.orElse (Decoder.nullable Trigger.ofJson) none levels trigger
      let entityType ← Decoder.orElse (Decoder.nullable Decoder.string) none levels entityType
      let description ← Decoder.orElse (Decoder.nullable Decoder.string) none levels description
      let parameters ← Decoder.orElse (Decoder.list Parameter.ofJson) [] levels parameters
      some { name, priority, trigger, entityType, description, parameters }
    | _ => none

end Blockscript
