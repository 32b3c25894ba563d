import Blockscript.Block.Kind
import Blockscript.Text.Blank

/-!
# Editing one field of a block

`BlockKind.update?` puts a value into the slot of that name, where the kind has one that takes such
a value, and answers only if the slot held another (`replace?`). Blank text clears the two optional
slots, the filter of a loop and the message of a precondition.
-/

namespace Blockscript

/-- The fields of the five kinds of block. -/
inductive BlockField where
  | target | value | entity | action | binder | conditions | label | onFailure | product | method
  | args
  deriving DecidableEq, Repr

/-- The name of a field. -/
def BlockField.name : BlockField → String
  | .target => "target"
  | .value => "value"
  | .entity => "entity"
  | .action => "action"
  | .binder => "variable"
  | .conditions => "conditions"
  | .label => "label"
  | .onFailure => "onFailure"
  | .product => "product"
  | .method => "method"
  | .args => "args"

/-- A new value for a field. -/
inductive FieldValue where
  | text (text : String)
  | args (args : List CallArg)
  deriving DecidableEq, Repr

/-- The text, unless it is blank. -/
def unlessBlank (text : String) : Option String :=
  if Text.trim text.toList = [] then none else some text

/-- A new content for a slot, unless the slot holds it already. -/
def replace? {α : Type} [DecidableEq α] (slot next : α) : Option α :=
  if slot = next then none else some next

namespace BlockKind

/-- The kind with its plain text slot `field` replaced, if it has such a slot with another text. -/
def updateText? : BlockKind → BlockField → String → Option BlockKind
  | .set target value, .target, t => (replace? target t).map (.set · value)
  | .set target value, .value, t => (replace? value t).map (.set target ·)
  | .trigger entity action target, .entity, t => (replace? entity t).map (.trigger · action target)
  | .trigger entity action target, .action, t => (replace? action t).map (.trigger entity · target)
  | .trigger entity action target, .target, t => (replace? target t).map (.trigger entity action ·)
  | .forEach binder entity conditions, .binder, t =>
    (replace? binder t).map (.forEach · entity conditions)
  | .forEach binder entity conditions, .entity, t =>
    (replace? entity t).map (.forEach binder · conditions)
  | .precondition label conditions message, .label, t =>
    (replace? label t).map (.precondition · conditions message)
  | .precondition label conditions message, .conditions, t =>
    (replace? conditions t).map (.precondition label · message)
  | .call c, .product, t => (replace? c.product t).map fun product => .call { c with product }
  | .call c, .method, t => (replace? c.method t).map fun method => .call { c with method }
  | _, _, _ => none

/-- The kind with `field` replaced, if it has such a slot with another content. -/
def update? : BlockKind → BlockField → FieldValue → Option BlockKind
  | .call c, .args, .args args => (replace? c.args args).map fun args => .call { c with args }
  | .forEach binder entity conditions, .conditions, .text t =>
    (replace? conditions (unlessBlank t)).map (.forEach binder entity ·)
  | .precondition label conditions message, .onFailure, .text t =>
    (replace? message (unlessBlank t)).map (.precondition label conditions ·)
  | kind, field, .text t => kind.updateText? field t
  | _, _, .args _ => none

end BlockKind

end Blockscript
