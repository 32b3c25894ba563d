import Blockscript.Call.Catalogue
import Blockscript.Script.Arguments

/-!
# Editing the arguments of calls

Selecting a product and a method for a call issues a ticket to fetch the method's inputs. The user
may select something else while the answer is under way: every selection is numbered, and an answer
counts only while its own selection is the active one of its block. Inputs that arrive turn the
editor into a form with one field per input; without them, or in manual mode, the arguments are one
line of text.
-/

namespace Blockscript

/-- One selection of a product and a method for a block; the ticket to fetch the method's inputs. -/
structure Selection where
  block : BlockId
  product : String
  method : String
  /-- The number of the selection, from 1 on; it has 64 bits, which are taken to be enough. -/
  number : Nat
  deriving DecidableEq, Repr

/-- How the arguments of a call are edited. -/
inductive ArgumentEditor where
  /-- A form with one field per input. -/
  | structured (fields : List InputField)
  /-- One line of text. -/
  | freeText (raw : String)
  deriving DecidableEq, Repr

/-- How far the inputs of the selected method have been fetched. -/
inductive FetchStatus where
  | idle
  | loading
  | ready
  | failed (message : String)
  deriving DecidableEq, Repr

/-- The editor of one call. -/
structure CallEditor where
  /-- The active selection. -/
  selection : Option Selection
  editor : ArgumentEditor
  status : FetchStatus
  /-- Whether the arguments are to be edited as text even if the inputs are known. -/
  manual : Bool
  /-- The inputs of the selected method. -/
  schema : Option (List InputField)
  deriving DecidableEq, Repr

/-- A field of a form. -/
structure FormInput where
  name : String
  type : String
  value : String
  deriving DecidableEq, Repr

/-- Whether an answer was used. -/
inductive Delivery where
  | applied
  | stale
  deriving DecidableEq, Repr

/-- The text editor for a list of arguments. -/
def ArgumentEditor.ofArgs (args : List CallArg) : ArgumentEditor :=
  .freeText (Arguments.display args)

namespace CallEditor

/-- The editor of a call for which nothing is selected. -/
def unselected (args : List CallArg) : CallEditor :=
  { selection := none, editor := .ofArgs args, status := .idle, manual := false, schema := none }

/-- The editor right after a selection. -/
def select (e : CallEditor) (key : Selection) (args : List CallArg) : CallEditor :=
  { e with selection := some key, editor := .ofArgs args, status := .loading, schema := none }

/-- The editor after an answer to its active selection. -/
def receive (e : CallEditor) (answer : Except SchemaError (List InputField))
    (args : List CallArg) : CallEditor :=
  match answer with
  | .ok fields =>
    { e with
      status := .ready
      schema := some fields
      editor := if e.manual then e.editor else .structured fields }
  | .error err =>
    { e with status := .failed err.message, schema := none, editor := .ofArgs args }

/-- The editor with manual mode switched. -/
def setManual (e : CallEditor) (manual : Bool) (args : List CallArg) : CallEditor :=
  { e with
    manual
    editor :=
      match e.schema, manual with
      | some fields, false => .structured fields
      | _, _ => .ofArgs args }

/-- The editor after the arguments were changed elsewhere. -/
def refresh (e : CallEditor) (args : List CallArg) : CallEditor :=
  match e.editor with
  | .structured _ => e
  | .freeText _ => { e with editor := .ofArgs args }

end CallEditor

/-- The editors of the calls of a session, and the number of the latest selection; the selections
are counted in 64 bits, and the count is taken not to overflow. -/
structure CallEditors where
  editor? : BlockId → Option CallEditor := fun _ => none
  latest : Nat := 0

namespace CallEditors

/-- One editor put in place. -/
def put (c : CallEditors) (id : BlockId) (e : CallEditor) : CallEditors :=
  { c with editor? := fun b => if b = id then some e else c.editor? b }

/-- The editor of a call, a new one if it has none. -/
def getOrNew (c : CallEditors) (id : BlockId) (args : List CallArg) : CallEditor :=
  (c.editor? id).getD (.unselected args)

/-- A new selection for a call. -/
def select (c : CallEditors) (id : BlockId) (product method : String) (args : List CallArg) :
    Selection × CallEditors :=
  let key : Selection := ⟨id, product, method, c.latest + 1⟩
  (key, { c.put id ((c.getOrNew id args).select key args) with latest := c.latest + 1 })

/-- The selection of a call dropped, so that answers to it come too late. -/
def invalidate (c : CallEditors) (id : BlockId) (args : List CallArg) : CallEditors :=
  c.put id { CallEditor.unselected args with manual := (c.editor? id).any (·.manual) }

/-- An answer delivered. -/
def deliver (c : CallEditors) (ticket : Selection) (answer : Except SchemaError (List InputField))
    (args : List CallArg) : Delivery × CallEditors :=
  match c.editor? ticket.block with
  | none => (.stale, c)
  | some e =>
    if e.selection = some ticket then (.applied, c.put ticket.block (e.receive answer args))
    else (.stale, c)

/-- Manual mode switched for a call. -/
def setManual (c : CallEditors) (id : BlockId) (manual : Bool) (args : List CallArg) :
    CallEditors :=
  c.put id ((c.getOrNew id args).setManual manual args)

/-- The text line of a call replaced by what was typed. -/
def setFreeText (c : CallEditors) (id : BlockId) (raw : String) (args : List CallArg) :
    CallEditors :=
  c.put id { c.getOrNew id args with editor := .freeText raw }

/-- The text line of a call written anew after its arguments were changed elsewhere. -/
def refresh (c : CallEditors) (id : BlockId) (args : List CallArg) : CallEditors :=
  match c.editor? id with
  | none => c
  | some e => c.put id (e.refresh args)

/-- Only the editors of the blocks that `keep` holds for. -/
def retain (c : CallEditors) (keep : BlockId → Bool) : CallEditors :=
  { c with editor? := fun id => if keep id then c.editor? id else none }

/-- No editor at all; selections go on being numbered. -/
def clear (c : CallEditors) : CallEditors := { c with editor? := fun _ => none }

/-- The inputs of the form of a call; none outside of a form. -/
def fields? (c : CallEditors) (id : BlockId) : Option (List InputField) :=
  match c.editor? id with
  | some { editor := .structured fields, .. } => some fields
  | _ => none

/-- The value that a form shows for an input: that of the first argument of its name. -/
def valueOf (args : List CallArg) (name : String) : String :=
  ((args.find? (·.name = name)).map (·.value)).getD ""

/-- The form of a call, filled in from its arguments; empty outside of a form. -/
def form (c : CallEditors) (id : BlockId) (args : List CallArg) : List FormInput :=
  ((c.fields? id).getD []).map fun f => ⟨f.name, f.type, valueOf args f.name⟩

/-- The arguments with the first one of a name set, or with one added. -/
def bind (name value : String) : List CallArg → List CallArg
  | [] => [⟨name, value⟩]
  | a :: as => if a.name = name then ⟨name, value⟩ :: as else a :: bind name value as

/-- The arguments after an edit in the form; none if the form has no such field. -/
def editField (c : CallEditors) (id : BlockId) (name value : String) (args : List CallArg) :
    Option (List CallArg) :=
  (c.fields? id).bind fun fields =>
    if fields.any (·.name = name) then some (bind name value args) else none

@[simp] theorem editor?_put_self (c : CallEditors) (id : BlockId) (e : CallEditor) :
    (c.put id e).editor? id = some e := by
  simp [put]

theorem editor?_put_of_ne (c : CallEditors) {id other : BlockId} (e : CallEditor)
    (h : other ≠ id) : (c.put id e).editor? other = c.editor? other := by
  simp [put, h]

end CallEditors

end Blockscript
