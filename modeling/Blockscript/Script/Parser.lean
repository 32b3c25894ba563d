import Blockscript.Script.Line
import Blockscript.Forest.Basic

/-!
# Reading a document

`Script.parse` reads a document line by line into a forest of statements and one of preconditions.
It never fails: a line that it cannot use is noted as skipped and changes nothing else. A loop is
open until its closing brace; statements go under the innermost open loop. In an action they count
only from the `EFFECT` line on, and a failure message belongs to the precondition on the line
before it. `Script.header?` reads the header of a document alone.
-/

namespace Blockscript

/-- A line that gave no block: its number and its text without the blanks at its ends. -/
structure SkippedLine where
  number : Nat
  text : String
  deriving DecidableEq, Repr

/-- The blocks of a document and the lines that gave none. -/
structure Script where
  statements : Forest
  preconditions : Forest
  skipped : List SkippedLine
  deriving DecidableEq, Repr

namespace Script

/-- A document read so far. -/
structure Progress where
  ids : IdSupply
  statements : Forest := .empty .statements
  preconditions : Forest := .empty .preconditions
  skipped : List SkippedLine := []
  /-- The open loops, the innermost first. -/
  loops : List BlockId := []
  /-- Whether the `EFFECT` line of an action has been read. -/
  inEffect : Bool := false
  /-- The precondition on the line before, which may still get a message. -/
  awaiting : Option BlockId := none

namespace Progress

/-- The place of the next statement: under the innermost open loop. -/
def place (p : Progress) : Place :=
  match p.loops with
  | [] => .top
  | loop :: _ => .under loop

/-- A line noted as skipped. -/
def skip (p : Progress) (line : SourceLine) : Progress :=
  { p with skipped := p.skipped ++ [⟨line.number, String.ofList line.text⟩] }

/-- A statement added under the innermost open loop; a loop is open from then on. -/
def addStatement (p : Progress) (kind : BlockKind) : Progress :=
  let id := p.ids.fresh
  { p with
    ids := p.ids.advance
    statements := (p.statements.add? p.place ⟨id, kind⟩).getD p.statements
    loops := if kind.isContainer then id :: p.loops else p.loops }

/-- A precondition added, which may get a message from the next line. -/
def addPrecondition (p : Progress) (label conditions : String) : Progress :=
  let id := p.ids.fresh
  { p with
    ids := p.ids.advance
    preconditions :=
      (p.preconditions.add? .top ⟨id, .precondition label conditions none⟩).getD p.preconditions
    awaiting := some id }

/-- A precondition given its message. -/
def setMessage (p : Progress) (id : BlockId) (message : String) : Progress :=
  { p with
    preconditions :=
      (p.preconditions.update? id .onFailure (.text message)).getD p.preconditions }

/-- Whether statements count here: in an action, only after the `EFFECT` line. -/
def acceptsStatements (p : Progress) (mode : Mode) : Bool := mode == .rule || p.inEffect

/-- One more line read. -/
def step (mode : Mode) (p : Progress) (line : SourceLine) : Progress :=
  let before := p.awaiting
  let p := { p with awaiting := none }
  match mode, Line.read line.text with
  | .action, .precondition label conditions => p.addPrecondition label conditions
  | .action, .failure message =>
    match before with
    | some id => p.setMessage id message
    | none => p.skip line
  | .action, .effect => { p with inEffect := true }
  | _, .close => { p with loops := p.loops.tail }
  | _, .statement kind => if p.acceptsStatements mode then p.addStatement kind else p.skip line
  | mode, said => if said.isHeader mode then p else p.skip line

end Progress

/-- The document read to the end. -/
def progress (mode : Mode) (ids : IdSupply) (text : String) : Progress :=
  (sourceLines text).foldl (Progress.step mode) { ids }

/-- The blocks of a document, which get their identifiers from `ids` in the order of their lines;
and what is left of the supply. -/
def parse (mode : Mode) (ids : IdSupply) (text : String) : Script × IdSupply :=
  let p := progress mode ids text
  (⟨p.statements, p.preconditions, p.skipped⟩, p.ids)

/-! ## The header alone -/

/-- What the first `RULE` line says. -/
def ruleLine? : List Line → Option (String × Option Int64)
  | [] => none
  | .ruleHeader name priority :: _ => some (name, priority)
  | _ :: ls => ruleLine? ls

/-- What the first `ON` line says. -/
def triggerLine? : List Line → Option Trigger
  | [] => none
  | .triggerHeader trigger :: _ => some trigger
  | _ :: ls => triggerLine? ls

/-- What the first `ACTION` line says. -/
def actionLine? : List Line → Option (String × String × List Parameter)
  | [] => none
  | .actionHeader entityType name parameters :: _ => some (entityType, name, parameters)
  | _ :: ls => actionLine? ls

/-- What the first `DESCRIPTION` line says. -/
def descriptionLine? : List Line → Option String
  | [] => none
  | .descriptionHeader text :: _ => some text
  | _ :: ls => descriptionLine? ls

/-- The header of a document, from the first line of each kind wherever it stands; there is none
without a `RULE` or `ACTION` line. -/
def header? (mode : Mode) (text : String) : Option Header :=
  let lines := (sourceLines text).map (Line.read ·.text)
  match mode with
  | .rule => (ruleLine? lines).map fun (name, priority) =>
      { name, priority, trigger := triggerLine? lines }
  | .action => (actionLine? lines).map fun (entityType, name, parameters) =>
      { name, entityType := some entityType, description := descriptionLine? lines, parameters }

end Script

end Blockscript
