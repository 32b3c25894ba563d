import Blockscript.Script.Header
import Blockscript.Session.Basic
import Blockscript.Table

/-!
# Stored definitions

The host keeps rules and actions as records with their text. A `Store` finds them by name; a session
is opened on a record with the header that the record holds.
-/

namespace Blockscript

/-- The record of a rule. -/
structure RuleDefinition where
  name : String
  text : String
  priority : Int64
  trigger : Option Trigger := none
  active : Bool := true
  deriving DecidableEq, Repr

/-- The record of an action. -/
structure ActionDefinition where
  name : String
  text : String
  entityType : String
  description : Option String := none
  active : Bool := true
  deriving DecidableEq, Repr

/-- The record of a document. -/
inductive Definition where
  | rule (r : RuleDefinition)
  | action (a : ActionDefinition)
  deriving DecidableEq, Repr

namespace Definition

/-- The name of the document. -/
def name : Definition → String
  | .rule r => r.name
  | .action a => a.name

/-- The text of the document. -/
def text : Definition → String
  | .rule r => r.text
  | .action a => a.text

/-- Whether the document is in use. -/
def active : Definition → Bool
  | .rule r => r.active
  | .action a => a.active

/-- The mode of the document. -/
def mode : Definition → Mode
  | .rule _ => .rule
  | .action _ => .action

/-- The header that the record holds. -/
def header : Definition → Header
  | .rule r => { name := r.name, priority := some r.priority, trigger := r.trigger }
  | .action a => { name := a.name, entityType := some a.entityType, description := a.description }

/-- The record with another text. -/
def withText (d : Definition) (text : String) : Definition :=
  match d with
  | .rule r => .rule { r with text }
  | .action a => .action { a with text }

/-- A session on the document. -/
def openSession (d : Definition) : Session := (Session.new d.mode d.header).openText d.text

end Definition

/-- The records of a host, by name. -/
structure Store where
  definitions : Table Definition := {}
  deriving Repr

namespace Store

/-- The record of that name. -/
def load? (s : Store) (name : String) : Option Definition := s.definitions.get? name

/-- The store with a record under its own name. -/
def insert (s : Store) (d : Definition) : Store := ⟨s.definitions.put d.name d⟩

/-- The store with the text of a record replaced, if there is one of that name. -/
def saveText? (s : Store) (name text : String) : Option Store :=
  (s.load? name).map fun d => ⟨s.definitions.put name (d.withText text)⟩

/-- The store of the records, where the last of a name counts. -/
def ofList (ds : List Definition) : Store := ds.foldl insert {}

end Store

/-- What is said when there is no record of that name. -/
def missingDefinition (name : String) : String := "No definition named '" ++ name ++ "'"

end Blockscript
