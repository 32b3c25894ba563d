import Blockscript.Json.Decoder
import Blockscript.Forest.Basic

/-!
# Blocks as JSON

The JSON shapes of blocks, their parts and the outlines they make up. `toJson` writes the members of
a record in a fixed order; `ofJson` takes them in any order and knows the second name of the message
of a precondition.
-/

namespace Blockscript

open Json

/-! ## Names of fixed choices -/

/-- The kind of block of that keyword. -/
def BlockTag.ofKeyword? : String → Option BlockTag
  | "SET" => some .set
  | "TRIGGER" => some .trigger
  | "FOR" => some .forEach
  | "PRECONDITION" => some .precondition
  | "CALL" => some .call
  | _ => none

/-- The field of that name. -/
def BlockField.ofName? : String → Option BlockField
  | "target" => some .target
  | "value" => some .value
  | "entity" => some .entity
  | "action" => some .action
  | "variable" => some .binder
  | "conditions" => some .conditions
  | "label" => some .label
  | "onFailure" => some .onFailure
  | "product" => some .product
  | "method" => some .method
  | "args" => some .args
  | _ => none

/-- The name of what a forest holds. -/
def ForestRole.name : ForestRole → String
  | .statements => "Statements"
  | .preconditions => "Preconditions"

/-- What a forest of that name holds. -/
def ForestRole.ofName? : String → Option ForestRole
  | "Statements" => some .statements
  | "Preconditions" => some .preconditions
  | _ => none

/-- The keyword. -/
def BlockTag.toJson (t : BlockTag) : Json := .str t.keyword

/-- Reads a keyword. -/
def BlockTag.ofJson : Decoder BlockTag := Decoder.choice BlockTag.ofKeyword?

/-- The name of a field. -/
def BlockField.toJson (f : BlockField) : Json := .str f.name

/-- Reads the name of a field. -/
def BlockField.ofJson : Decoder BlockField := Decoder.choice BlockField.ofName?

/-- The name of a role. -/
def ForestRole.toJson (r : ForestRole) : Json := .str r.name

/-- Reads the name of a role. -/
def ForestRole.ofJson : Decoder ForestRole := Decoder.choice ForestRole.ofName?

/-! ## Parts of blocks -/

/-- The bare number. -/
def BlockId.toJson (id : BlockId) : Json := ofNat id.val

/-- Reads a bare number. -/
def BlockId.ofJson : Decoder BlockId := fun levels j => (Decoder.natural levels j).map BlockId.mk

/-- `"Root"`, or the identifier of the block above. -/
def Place.toJson : Place → Json
  | .top => .str "Root"
  | .under id => .obj [("Block", id.toJson)]

/-- Reads a place. -/
def Place.ofJson : Decoder Place
  | _, .str "Root" => some .top
  | _ + 1, .obj [("Root", .null)] => some .top
  | levels + 1, .obj [("Block", j)] => (BlockId.ofJson levels j).map Place.under
  | _, _ => none

/-- Name and value. -/
def CallArg.toJson (a : CallArg) : Json := .obj [("name", .str a.name), ("value", .str a.value)]

/-- Reads an argument. -/
def CallArg.ofJson : Decoder CallArg :=
  Decoder.record [{ name := "name" }, { name := "value" }] fun levels values =>
    match values with
    | [name, value] => do
      let name ← Decoder.required Decoder.string levels name
      let value ← Decoder.required Decoder.string levels value
      some { name, value }
    | _ => none

/-- A list of arguments. -/
def CallArg.listToJson (args : List CallArg) : Json := .arr (args.map CallArg.toJson)

/-- A text or a list of arguments, under a key that says which. -/
def FieldValue.toJson : FieldValue → Json
  | .text t => .obj [("Text", .str t)]
  | .args as => .obj [("Args", CallArg.listToJson as)]

/-- Reads a text or a list of arguments. -/
def FieldValue.ofJson : Decoder FieldValue :=
  Decoder.variant fun
    | "Text" => some fun levels j => (Decoder.string levels j).map FieldValue.text
    | "Args" => some fun levels j => (Decoder.list CallArg.ofJson levels j).map FieldValue.args
    | _ => none

/-! ## Blocks -/

/-- What a block says, under its keyword. -/
def BlockKind.toJson : BlockKind → Json
  | .set target value => .obj [("SET", .obj [("target", .str target), ("value", .str value)])]
  | .trigger entity action target =>
    .obj [("TRIGGER",
      .obj [("entity", .str entity), ("action", .str action), ("target", .str target)])]
  | .forEach binder entity conditions =>
    .obj [("FOR", .obj [("variable", .str binder), ("entity", .str entity),
      ("conditions", ofOption .str conditions)])]
  | .precondition label conditions onFailure =>
    .obj [("PRECONDITION", .obj [("label", .str label), ("conditions", .str conditions),
      ("on_failure", ofOption .str onFailure)])]
  | .call c =>
    .obj [("CALL", .obj [("product", .str c.product), ("method", .str c.method),
      ("args", CallArg.listToJson c.args)])]

/-- Reads what stands under `SET`. -/
def BlockKind.setOfJson : Decoder BlockKind :=
  Decoder.record [{ name := "target" }, { name := "value" }] fun levels values =>
    match values with
    | [target, value] => do
      let target ← Decoder.required Decoder.string levels target
      let value ← Decoder.required Decoder.string levels value
      some (.set target value)
    | _ => none

/-- Reads what stands under `TRIGGER`. -/
def BlockKind.triggerOfJson : Decoder BlockKind :=
  Decoder.record [{ name := "entity" }, { name := "action" }, { name := "target" }]
    fun levels values =>
      match values with
      | [entity, action, target] => do
        let entity ← Decoder.required Decoder.string levels entity
        let action ← Decoder.required Decoder.string levels action
        let target ← Decoder.required Decoder.string levels target
        some (.trigger entity action target)
      | _ => none

/-- Reads what stands under `FOR`. -/
def BlockKind.forEachOfJson : Decoder BlockKind :=
  Decoder.record
    [{ name := "variable" }, { name := "entity" }, { name := "conditions", optional := true }]
    fun levels values =>
      match values with
      | [binder, entity, conditions] => do
        let binder ← Decoder.required Decoder.string levels binder
        let entity ← Decoder.required Decoder.string levels entity
        let conditions ← Decoder.orElse (Decoder.nullable Decoder.string) none levels conditions
        some (.forEach binder entity conditions)
      | _ => none

/-- Reads what stands under `PRECONDITION`. -/
def BlockKind.preconditionOfJson : Decoder BlockKind :=
  Decoder.record
    [{ name := "label" }, { name := "conditions" },
      { name := "on_failure", second := some "onFailure", optional := true }]
    fun levels values =>
      match values with
      | [label, conditions, onFailure] => do
        let label ← Decoder.required Decoder.string levels label
        let conditions ← Decoder.required Decoder.string levels conditions
        let onFailure ← Decoder.orElse (Decoder.nullable Decoder.string) none levels onFailure
        some (.precondition label conditions onFailure)
      | _ => none

/-- Reads what stands under `CALL`. -/
def BlockKind.callOfJson : Decoder BlockKind :=
  Decoder.record [{ name := "product" }, { name := "method" }, { name := "args", optional := true }]
    fun levels values =>
      match values with
      | [product, method, args] => do
        let product ← Decoder.required Decoder.string levels product
        let method ← Decoder.required Decoder.string levels method
        let args ← Decoder.orElse (Decoder.list CallArg.ofJson) [] levels args
        some (.call { product, method, args })
      | _ => none

/-- Reads what a block says. -/
def BlockKind.ofJson : Decoder BlockKind :=
  Decoder.variant fun
    | "SET" => some BlockKind.setOfJson
    | "TRIGGER" => some BlockKind.triggerOfJson
    | "FOR" => some BlockKind.forEachOfJson
    | "PRECONDITION" => some BlockKind.preconditionOfJson
    | "CALL" => some BlockKind.callOfJson
    | _ => none

/-- The identifier and what the block says. -/
def Block.toJson (b : Block) : Json := .obj [("id", b.id.toJson), ("kind", b.kind.toJson)]

/-- Reads a block. -/
def Block.ofJson : Decoder Block :=
  Decoder.record [{ name := "id" }, { name := "kind" }] fun levels values =>
    match values with
    | [id, kind] => do
      let id ← Decoder.required BlockId.ofJson levels id
      let kind ← Decoder.required BlockKind.ofJson levels kind
      some { id, kind }
    | _ => none

/-! ## Outlines -/

namespace Outline

/-- The entries: each is a block with the entries below it. -/
def entries : Outline → List Json
  | .nil => []
  | .cons b below next =>
    .obj [("block", b.toJson), ("children", .arr (entries below))] :: entries next

/-- The array of the entries. -/
def toJson (o : Outline) : Json := .arr o.entries

/-- Reads one entry whose members may nest so many levels deep; `children` reads what is below. -/
def readEntry (children : Json → Option Outline) (levels : Nat) (j : Json) :
    Option (Block × Outline) :=
  match memberValues [{ name := "block" }, { name := "children", optional := true }] j with
  | some [block, below] => do
    let block ← Decoder.required Block.ofJson levels block
    let below ← below.elim (some .nil) children
    some (block, below)
  | _ => none

/-- Reads an array of entries. Array and entry take a level each. -/
def ofJson : Decoder Outline
  | levels + 2, .arr items =>
    items.foldr (fun j next => do
      let (block, below) ← readEntry (ofJson levels) levels j
      some (.cons block below (← next))) (some .nil)
  | 1, .arr [] => some .nil
  | _, _ => none

/-- Reads a single entry as an outline of one. -/
def entryOfJson : Decoder Outline
  | levels + 1, j => (readEntry (ofJson levels) levels j).map fun (block, below) =>
      .cons block below .nil
  | 0, _ => none

end Outline

end Blockscript
