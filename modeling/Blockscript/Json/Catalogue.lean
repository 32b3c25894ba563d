import Blockscript.Json.Decoder
import Blockscript.Json.Parser
import Blockscript.Call.Catalogue

/-!
# Catalogues as JSON

A catalogue is an object of objects: the inputs of a method stand under its name, under the name of
its product. Of two products or methods of one name the last counts.
-/

namespace Blockscript

open Json

/-- Name and type of an input. -/
def InputField.toJson (f : InputField) : Json := .obj [("name", .str f.name), ("type", .str f.type)]

/-- Reads an input. -/
def InputField.ofJson : Decoder InputField :=
  Decoder.record [{ name := "name" }, { name := "type" }] fun levels values =>
    match values with
    | [name, type] => do
      let name ← Decoder.required Decoder.string levels name
      let type ← Decoder.required Decoder.string levels type
      some { name, type }
    | _ => none

/-- The inputs of a method. -/
def InputField.listToJson (fields : List InputField) : Json := .arr (fields.map InputField.toJson)

/-- The object of the entries of a table. -/
def Table.toJson {α : Type} (encode : α → Json) (t : Table α) : Json :=
  .obj (t.entries.map fun e => (e.1, encode e.2))

/-- Reads a table off an object. -/
def Table.ofJson {α : Type} (d : Decoder α) : Decoder (Table α)
  | levels + 1, .obj members =>
    (members.mapM fun e => (d levels e.2).map fun a => (e.1, a)).map Table.ofList
  | _, _ => none

namespace Catalogue

/-- The object of the products. -/
def toJson (c : Catalogue) : Json := c.products.toJson (Table.toJson InputField.listToJson)

/-- Reads a catalogue. -/
def ofJson : Decoder Catalogue := fun levels j =>
  (Table.ofJson (Table.ofJson (Decoder.list InputField.ofJson)) levels j).map Catalogue.mk

/-- The catalogue that a text writes in JSON. -/
def parse? (text : String) : Option Catalogue := (Json.parse text).bind (ofJson maxLevels)

end Catalogue

end Blockscript
