import Blockscript.Proofs.Text.Cleaned
import Blockscript.Script.Printer

/-!
# Normal forms

A document keeps a block in cleaned form only. `BlockKind.normal` is the block as the document says
it: names and paths without foreign characters, lines without breaks, placeholders for what is
empty, nothing for an optional text that is blank, and the arguments of a call as they are read.
-/

namespace Blockscript

open Text

/-- An optional text on one line, if it says anything. -/
def Clean.optional (text : Option String) : Option String :=
  match oneLine ((text.getD "").toList) with
  | [] => none
  | s => some (String.ofList s)

namespace BlockKind

/-- A block as a document says it. -/
def normal : BlockKind → BlockKind
  | .set target value =>
    .set (String.ofList (Clean.path "entity.prop" target))
      (String.ofList (Clean.line "\"\"" value))
  | .trigger entity action target =>
    .trigger (String.ofList (Clean.name "Entity" entity))
      (String.ofList (Clean.name "action" action)) (String.ofList (Clean.line "this" target))
  | .forEach binder entity conditions =>
    .forEach (String.ofList (Clean.name "item" binder))
      (String.ofList (Clean.name "Entity" entity)) (Clean.optional conditions)
  | .precondition label conditions message =>
    .precondition (String.ofList (Clean.name "check" label))
      (String.ofList (Clean.line "true" conditions)) (Clean.optional message)
  | .call c =>
    .call ⟨String.ofList (Clean.productText c.product),
      String.ofList (Clean.name "method" c.method), Clean.args c.args⟩

@[simp] theorem tag_normal (kind : BlockKind) : kind.normal.tag = kind.tag := by
  cases kind <;> rfl

@[simp] theorem isContainer_normal (kind : BlockKind) :
    kind.normal.isContainer = kind.isContainer := by
  rw [isContainer, isContainer, tag_normal]

end BlockKind

namespace Clean

theorem optional_eq_none {text : Option String} (h : oneLine ((text.getD "").toList) = []) :
    optional text = none := by
  rw [optional, h]

theorem optional_eq_some {text : Option String} (h : oneLine ((text.getD "").toList) ≠ []) :
    optional text = some (String.ofList (oneLine ((text.getD "").toList))) := by
  unfold optional
  split
  · contradiction
  · rfl

/-- An optional text says the same once it is cleaned. -/
theorem oneLine_optional (text : Option String) :
    oneLine (((optional text).getD "").toList) = oneLine ((text.getD "").toList) := by
  by_cases h : oneLine ((text.getD "").toList) = []
  · rw [optional_eq_none h, h]
    rfl
  · rw [optional_eq_some h, Option.getD_some, String.toList_ofList]
    exact (inline_oneLine _).oneLine_eq

end Clean

end Blockscript
