import Blockscript.Call.Editor
import Blockscript.Script.Parser
import Blockscript.Script.Printer

/-!
# Editor sessions

A `Session` keeps the blocks of one document and the text written from them in step. Text comes in
at one point only, `resync`, which reads the blocks anew from the last text of the host; every edit
of the blocks writes the text anew and tells it to the listeners. An edit that changes nothing tells
nobody.
-/

namespace Blockscript

/-- How the blocks of a session relate to the text of the host. -/
inductive SessionStatus where
  /-- No text has been read. -/
  | uninitialized
  /-- The blocks are as last read. -/
  | synced
  /-- The blocks were edited since. -/
  | dirty
  deriving DecidableEq, Repr

/-- The name of a status. -/
def SessionStatus.name : SessionStatus → String
  | .uninitialized => "uninitialized"
  | .synced => "synced"
  | .dirty => "dirty"

/-- An editor session on one document. -/
structure Session where
  mode : Mode
  header : Header
  status : SessionStatus
  statements : Forest
  preconditions : Forest
  /-- The last text of the host. -/
  source : Option String
  /-- The text written from the blocks. -/
  text : String
  /-- The lines that the last reading could not use. -/
  skipped : List SkippedLine
  ids : IdSupply
  calls : CallEditors
  /-- What each listener has heard, in order. -/
  heard : List (List String)

namespace Session

/-- A session without blocks. -/
def new (mode : Mode) (header : Header) : Session :=
  let statements := Forest.empty .statements
  let preconditions := Forest.empty .preconditions
  { mode, header, statements, preconditions
    status := .uninitialized
    source := none
    text := Script.write mode header statements preconditions
    skipped := []
    ids := .initial
    calls := {}
    heard := [] }

/-! ## Views -/

/-- The block of that identifier. -/
def get? (s : Session) (id : BlockId) : Option Block :=
  (s.statements.get? id).or (s.preconditions.get? id)

/-- The call of a block among the statements. -/
def call? (s : Session) (id : BlockId) : Option Call := (s.statements.get? id).bind (·.kind.call?)

/-- The arguments of a block, none if it is no call. -/
def argsOf (s : Session) (id : BlockId) : List CallArg := ((s.call? id).map (·.args)).getD []

/-! ## Keeping the text in step -/

/-- The text written anew. -/
def regenerate (s : Session) : Session :=
  { s with text := Script.write s.mode s.header s.statements s.preconditions }

/-- The text told to every listener. -/
def notify (s : Session) : Session := { s with heard := s.heard.map (· ++ [s.text]) }

/-- What every change of the blocks ends with. -/
def commit (s : Session) : Session := { s with status := .dirty }.regenerate.notify

/-- One more listener. -/
def listen (s : Session) : Session := { s with heard := s.heard ++ [[]] }

/-! ## Text from the host -/

/-- The blocks read anew from the last text of the host. -/
def resync (s : Session) : Session :=
  let (script, ids) := Script.parse s.mode s.ids (s.source.getD "")
  { s with
    statements := script.statements
    preconditions := script.preconditions
    skipped := script.skipped
    ids
    calls := s.calls.clear
    status := .synced }.regenerate

/-- A text of the host taken note of; the blocks stay until the next `resync`. -/
def setSource (s : Session) (text : String) : Session := { s with source := some text }

/-- The blocks read from a text of the host. -/
def openText (s : Session) (text : String) : Session := (s.setSource text).resync

/-- A session that has listeners from the start and is opened on a text, if there is one. -/
def build (mode : Mode) (header : Header) (listeners : Nat) (source : Option String) : Session :=
  let s := { new mode header with heard := List.replicate listeners [] }
  match source with
  | none => s
  | some text => s.openText text

/-- Another header. The text is told only if the header differs. -/
def setHeader (s : Session) (header : Header) : Session :=
  if header = s.header then s else { s with header }.regenerate.notify

/-! ## Edits of the blocks -/

/-- The blocks with one more, under the identifier `id`; preconditions have their own forest, in
actions only. -/
def insert? (s : Session) (place : Place) (b : Block) : Option Session :=
  if b.tag = .precondition then
    if s.mode = .action then
      (s.preconditions.add? place b).map fun f => { s with preconditions := f }
    else none
  else (s.statements.add? place b).map fun f => { s with statements := f }

/-- A new block, with its identifier unless it was refused. An identifier is used up either way. -/
def add (s : Session) (place : Place) (kind : BlockKind) : Option BlockId × Session :=
  let id := s.ids.fresh
  let s := { s with ids := s.ids.advance }
  match s.insert? place ⟨id, kind⟩ with
  | none => (none, s)
  | some s => (some id, s.commit)

/-- One field of a block replaced in the forest that holds it, if that makes a difference. -/
def setField? (s : Session) (id : BlockId) (field : BlockField) (value : FieldValue) :
    Option Session :=
  if s.statements.contains id then
    (s.statements.update? id field value).map fun f => { s with statements := f }
  else (s.preconditions.update? id field value).map fun f => { s with preconditions := f }

/-- One field of a block replaced; whether that made a difference. Nobody is told. -/
def setField (s : Session) (id : BlockId) (field : BlockField) (value : FieldValue) :
    Bool × Session :=
  match s.setField? id field value with
  | none => (false, s)
  | some s => (true, s)

/-- The call editors after a field of a block was changed: another product or method drops the
selection, other arguments are shown in the text line. -/
def followField (s : Session) (id : BlockId) (field : BlockField) : Session :=
  match s.call? id, field with
  | some c, .product => { s with calls := s.calls.invalidate id c.args }
  | some c, .method => { s with calls := s.calls.invalidate id c.args }
  | some c, .args => { s with calls := s.calls.refresh id c.args }
  | _, _ => s

/-- One field of a block replaced; whether anything changed. -/
def update (s : Session) (id : BlockId) (field : BlockField) (value : FieldValue) :
    Bool × Session :=
  match s.setField? id field value with
  | none => (false, s)
  | some s => (true, (s.followField id field).commit)

/-- A block removed with all that is nested under it; whether it was there. -/
def remove (s : Session) (id : BlockId) : Bool × Session :=
  match s.statements.remove? id with
  | some f => (true, { s with statements := f, calls := s.calls.retain f.contains }.commit)
  | none =>
    match s.preconditions.remove? id with
    | some f => (true, { s with preconditions := f }.commit)
    | none => (false, s)

/-- A block moved to the position of its sibling; whether the order changed. -/
def reorder (s : Session) (active goal : BlockId) : Bool × Session :=
  match s.statements.reorder? active goal with
  | some f => (true, { s with statements := f }.commit)
  | none =>
    match s.preconditions.reorder? active goal with
    | some f => (true, { s with preconditions := f }.commit)
    | none => (false, s)

/-! ## Calls -/

/-- A product and a method selected for a call, with the ticket to fetch the inputs. -/
def select (s : Session) (id : BlockId) (product method : String) : Option Selection × Session :=
  match s.call? id with
  | none => (none, s)
  | some _ =>
    let (newProduct, s) := s.setField id .product (.text product)
    let (newMethod, s) := s.setField id .method (.text method)
    let s := if newProduct || newMethod then s.commit else s
    let (ticket, calls) := s.calls.select id product method (s.argsOf id)
    (some ticket, { s with calls })

/-- An answer to a ticket delivered. -/
def deliver (s : Session) (ticket : Selection) (answer : Except SchemaError (List InputField)) :
    Delivery × Session :=
  let (delivery, calls) := s.calls.deliver ticket answer (s.argsOf ticket.block)
  (delivery, { s with calls })

/-- The form of a call, filled in from its arguments. -/
def form (s : Session) (id : BlockId) : List FormInput :=
  match s.call? id with
  | none => []
  | some c => s.calls.form id c.args

/-- The arguments of a call replaced; whether anything changed. -/
def setArgs (s : Session) (id : BlockId) (args : List CallArg) : Bool × Session :=
  match s.setField? id .args (.args args) with
  | none => (false, s)
  | some s => (true, s.commit)

/-- One field of the form of a call edited; whether the arguments changed. -/
def editArgument (s : Session) (id : BlockId) (name value : String) : Bool × Session :=
  match (s.call? id).bind fun c => s.calls.editField id name value c.args with
  | none => (false, s)
  | some args => s.setArgs id args

/-- The text line of a call edited; whether the arguments changed. -/
def editFreeText (s : Session) (id : BlockId) (raw : String) : Bool × Session :=
  match s.call? id with
  | none => (false, s)
  | some _ =>
    let args := Arguments.read raw.toList
    { s with calls := s.calls.setFreeText id raw args }.setArgs id args

/-- Manual mode switched for a call. -/
def setManual (s : Session) (id : BlockId) (manual : Bool) : Session :=
  match s.call? id with
  | none => s
  | some c => { s with calls := s.calls.setManual id manual c.args }

end Session

end Blockscript
