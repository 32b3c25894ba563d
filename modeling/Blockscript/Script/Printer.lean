import Blockscript.Script.Clean
import Blockscript.Script.Header
import Blockscript.Text.Quoted
import Blockscript.Text.Decimal
import Blockscript.Forest.Basic

/-!
# Writing a document

`Script.write` writes a header, preconditions and statements as a document of the given mode. All
text is cleaned on the way, so that what is written can be read. Each nesting level is indented by
four spaces.
-/

namespace Blockscript.Script

open Text

/-- A line, indented by so many levels. -/
def indented (depth : Nat) (s : List Char) : List Char := List.replicate (4 * depth) ' ' ++ s

/-- The call of a statement. -/
def callLine (c : Call) : List Char :=
  let args := Clean.args c.args
  "CALL ".toList ++ Clean.product c.product ++ ['.'] ++ Clean.name "method" c.method ++ ['('] ++
    (if args = [] then ['{', '}'] else Arguments.write args) ++ ");".toList

/-- The filter of a loop, if it says anything. -/
def filterText (conditions : Option String) : List Char :=
  match oneLine ((conditions.getD "").toList) with
  | [] => []
  | s => " WHERE ".toList ++ s

/-- The line that a statement starts with; a precondition is no statement. -/
def statementLine : BlockKind → Option (List Char)
  | .set target value =>
    some ("SET ".toList ++ Clean.path "entity.prop" target ++ " = ".toList ++
      Clean.line "\"\"" value ++ [';'])
  | .trigger entity action target =>
    some ("TRIGGER ".toList ++ Clean.name "Entity" entity ++ ['.'] ++ Clean.name "action" action ++
      " ON ".toList ++ Clean.line "this" target ++ [';'])
  | .forEach binder entity conditions =>
    some ("FOR (".toList ++ Clean.name "item" binder ++ ": ".toList ++ Clean.name "Entity" entity ++
      filterText conditions ++ [')', ' ', '{'])
  | .call c => some (callLine c)
  | .precondition .. => none

/-- The lines of the statements of an outline; a loop has an empty line before its body and a
closing brace after it. -/
def statementLines (depth : Nat) : Outline → List (List Char)
  | .nil => []
  | .cons b below next =>
    match statementLine b.kind with
    | none => statementLines depth next
    | some s =>
      if b.isContainer then
        indented depth s :: [] :: statementLines (depth + 1) below ++
          indented depth ['}'] :: statementLines depth next
      else indented depth s :: statementLines depth next

/-- The message of a precondition, if it says anything. -/
def failureLines (message : Option String) : List (List Char) :=
  match oneLine ((message.getD "").toList) with
  | [] => []
  | s => [indented 2 ("ON_FAILURE: \"".toList ++ escape s ++ ['"'])]

/-- The lines of a precondition; another kind of block has none. -/
def preconditionLines : BlockKind → List (List Char)
  | .precondition label conditions message =>
    indented 1 ("PRECONDITION ".toList ++ Clean.name "check" label ++ ": ".toList ++
      Clean.line "true" conditions) :: failureLines message
  | _ => []

/-- The event of a rule. A property is named for updates only. -/
def triggerText : Option Trigger → List Char
  | none => "UPDATE(Entity)".toList
  | some t =>
    let event := Clean.name "UPDATE" t.event
    let property := Clean.name "" (t.property.getD "")
    event ++ ['('] ++ Clean.name "Entity" t.entity ++
      (if event = "UPDATE".toList ∧ property ≠ [] then '.' :: property else []) ++ [')']

/-- One parameter of an action. -/
def parameterText (p : Parameter) : List Char :=
  Clean.name "param" p.name ++ ": ".toList ++ Clean.line "Any" p.type ++
    (if p.optional then ['?'] else [])

/-- The parameters of an action in parentheses; none for no parameters. -/
def parametersText (ps : List Parameter) : List Char :=
  if ps = [] then [] else ['('] ++ join ", ".toList (ps.map parameterText) ++ [')']

/-- The description of an action, if it says anything. -/
def descriptionLines (description : Option String) : List (List Char) :=
  match oneLine ((description.getD "").toList) with
  | [] => []
  | s => [indented 1 ("DESCRIPTION: \"".toList ++ escape s ++ ['"'])]

/-- The lines of a rule. -/
def ruleLines (h : Header) (statements : Outline) : List (List Char) :=
  ("RULE ".toList ++ Clean.line "Untitled" h.name ++ " PRIORITY ".toList ++
      intDigits (h.priority.getD 100).toInt ++ [' ', '{']) ::
    indented 1 ("ON ".toList ++ triggerText h.trigger) :: [] ::
    statementLines 1 statements ++ [['}']]

/-- The name of an action. Parentheses are left out, because they would open the parameters. -/
def actionName (name : String) : List Char :=
  Clean.line "Untitled" (String.ofList (name.toList.filter fun c => c ≠ '(' ∧ c ≠ ')'))

/-- The lines of an action. -/
def actionLines (h : Header) (statements : Outline) (preconditions : List Block) :
    List (List Char) :=
  ("ACTION ".toList ++ Clean.name "Entity" (h.entityType.getD "") ++ ['.'] ++ actionName h.name ++
      parametersText h.parameters ++ [' ', '{']) ::
    descriptionLines h.description ++ preconditions.flatMap (preconditionLines ·.kind) ++
    [] :: indented 1 ("EFFECT ".toList ++ ['{']) :: statementLines 2 statements ++
    [indented 1 ['}'], ['}']]

/-- The lines of a document. Preconditions are written in actions only. -/
def lines (mode : Mode) (h : Header) (statements preconditions : Forest) : List (List Char) :=
  match mode with
  | .rule => ruleLines h statements.outline
  | .action => actionLines h statements.outline (preconditions.walk.map (·.2))

/-- The text of a document. -/
def write (mode : Mode) (h : Header) (statements preconditions : Forest) : String :=
  String.ofList (join ['\n'] (lines mode h statements preconditions))

end Blockscript.Script
