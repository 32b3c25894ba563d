import Blockscript.Block.Kind

/-!
# Document modes and headers

A document is a rule or an action. Its `Header` is what the opening lines say: a rule has a name, a
priority and the event that triggers it, an action has a name, the type of entity it belongs to, a
description and parameters. Text does not use the parts that belong to the other mode.
-/

namespace Blockscript

/-- The two kinds of document. -/
inductive Mode where
  /-- A trigger and a body of statements. -/
  | rule
  /-- Preconditions and a body of statements marked `EFFECT`. -/
  | action
  deriving DecidableEq, Repr

/-- The keyword of a mode. -/
def Mode.keyword : Mode → String
  | .rule => "RULE"
  | .action => "ACTION"

/-- The event a rule waits for: `ON event(entity.property)`. -/
structure Trigger where
  event : String
  entity : String
  property : Option String := none
  deriving DecidableEq, Repr

/-- A parameter of an action: `name: type`, with a question mark if it may be left out. -/
structure Parameter where
  name : String
  type : String
  optional : Bool := false
  deriving DecidableEq, Repr

/-- What the opening lines of a document say. -/
structure Header where
  name : String := ""
  priority : Option Int64 := none
  trigger : Option Trigger := none
  entityType : Option String := none
  description : Option String := none
  parameters : List Parameter := []
  deriving DecidableEq, Repr

namespace Header

/-- The header that says nothing. -/
def blank : Header := {}

/-- The header of a rule. -/
def rule (name : String) (priority : Int64) (trigger : Trigger) : Header :=
  { name, priority := some priority, trigger := some trigger }

/-- The header of an action. -/
def action (name entityType : String) : Header := { name, entityType := some entityType }

/-- The header with a description. -/
def withDescription (h : Header) (text : String) : Header := { h with description := some text }

/-- The header with one more parameter. -/
def withParameter (h : Header) (p : Parameter) : Header :=
  { h with parameters := h.parameters ++ [p] }

end Header

end Blockscript
