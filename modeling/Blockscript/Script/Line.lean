import Blockscript.Script.Arguments
import Blockscript.Script.Header
import Blockscript.Text.Quoted

/-!
# Lines of a document

Every line is read on its own. `Line.read` recognises the statements, the preconditions and their
messages, the `EFFECT` marker, the closing brace and the header lines of both modes; whatever else
stands on a line is `other`. A line is given without the blanks at its ends, and so are the parts
that are read off it; the name in an `ACTION` line keeps its leading blanks.
-/

namespace Blockscript

/-- What a line of a document says. -/
inductive Line where
  /-- `SET`, `TRIGGER`, `FOR` or `CALL` -/
  | statement (kind : BlockKind)
  /-- `PRECONDITION label: conditions` -/
  | precondition (label conditions : String)
  /-- `ON_FAILURE: "message"` -/
  | failure (message : String)
  /-- `EFFECT` and an opening brace -/
  | effect
  /-- A closing brace -/
  | close
  /-- `RULE name PRIORITY priority` and an opening brace; a priority beyond 64 bits is none -/
  | ruleHeader (name : String) (priority : Option Int64)
  /-- `ON event(entity.property)` -/
  | triggerHeader (trigger : Trigger)
  /-- `ACTION entity.name(parameters)` and an opening brace -/
  | actionHeader (entityType name : String) (parameters : List Parameter)
  /-- `DESCRIPTION: "text"` -/
  | descriptionHeader (text : String)
  | other
  deriving DecidableEq, Repr

namespace Line

open Text

/-! ## Statements -/

/-- Whether a text starts with a blank. -/
def startsBlank (s : List Char) : Bool := s.head?.any isBlank

/-- `SET target = value;`: the target goes to the first equals sign. -/
def readSet (s : List Char) : Option Line := do
  let (target, value) ← cut '=' (← expect "SET".toList s)
  if startsBlank target && target.length ≥ 2 then
    some (.statement
      (.set (String.ofList (trim target)) (String.ofList (trim (dropSemicolon value)))))
  else none

/-- `TRIGGER entity.action ON target;` -/
def readTrigger (s : List Char) : Option Line := do
  let s ← expectBlank (← expect "TRIGGER".toList s)
  let (entity, s) ← run (fun c => !isBlank c && c != '.') s
  let (action, s) ← run (fun c => !isBlank c) (← expect ['.'] s)
  let s ← expectBlank (← expect "ON".toList (← expectBlank s))
  some (.statement
    (.trigger (String.ofList entity) (String.ofList action)
      (String.ofList (trim (dropSemicolon s)))))

/-- The filter of a loop, up to the parenthesis and brace that end the line; a blank one is none. -/
def readFilter (s : List Char) : Option (Option String) := do
  let s ← expectBlank (← expect "WHERE".toList (← expectBlank s))
  let conditions ← beforeFinal ')' (trimEnd (← beforeFinal '{' s))
  match trim conditions with
  | [] => some none
  | text => some (some (String.ofList text))

/-- The end of a loop without a filter. -/
def readNoFilter (s : List Char) : Option (Option String) := do
  let s ← expect [')'] (trimStart s)
  if trimStart s = ['{'] then some none else none

/-- `FOR (binder: entity WHERE conditions)` and an opening brace. -/
def readFor (s : List Char) : Option Line := do
  let s ← expect ['('] (trimStart (← expect "FOR".toList s))
  let (binder, s) ← run (fun c => !isBlank c && c != ':') (trimStart s)
  let s ← expect [':'] (trimStart s)
  let (entity, s) ← run (fun c => !isBlank c && c != ')') (trimStart s)
  let conditions ← readFilter s <|> readNoFilter s
  some (.statement (.forEach (String.ofList binder) (String.ofList entity) conditions))

/-- A product in double quotes, a point and a method. -/
def readQuotedTarget (s : List Char) : Option (List Char × List Char × List Char) := do
  let (product, s) ← cut '"' (← expect ['"'] s)
  let (method, s) ← run isWord (← expect ['.'] s)
  some (trim product, method, s)

/-- Words joined by points, the last of them the method. -/
def readBareTarget (s : List Char) : Option (List Char × List Char × List Char) := do
  let (path, s) ← run (fun c => isWord c || c == '$' || c == '.' || c == '-') s
  let (product, method) ← cutLast '.' path
  if product ≠ [] ∧ method ≠ [] ∧ method.all isWord then some (product, method, s) else none

/-- `CALL product.method(args);` -/
def readCall (s : List Char) : Option Line := do
  let s ← expectBlank (← expect "CALL".toList s)
  let (product, method, s) ← readQuotedTarget s <|> readBareTarget s
  let args ← beforeClosing ')' (← expect ['('] (trimStart s))
  some (.statement
    (.call ⟨String.ofList product, String.ofList method, Arguments.read args⟩))

/-! ## Preconditions -/

/-- `PRECONDITION label: conditions` -/
def readPrecondition (s : List Char) : Option Line := do
  let s ← expectBlank (← expect "PRECONDITION".toList s)
  let (label, s) ← run (fun c => !isBlank c && c != ':') s
  let s ← expect [':'] (trimStart s)
  some (.precondition (String.ofList label) (String.ofList (trim s)))

/-- What follows a keyword, a colon and an opening quote. -/
def expectQuoted (keyword : List Char) (s : List Char) : Option (List Char) := do
  let s ← expect [':'] (trimStart (← expect keyword s))
  expect ['"'] (trimStart s)

/-- `ON_FAILURE: "message"` -/
def readFailure (s : List Char) : Option Line := do
  let message ← beforeClosing '"' (← expectQuoted "ON_FAILURE".toList s)
  some (.failure (String.ofList (unescape message)))

/-- `EFFECT` and an opening brace. -/
def readEffect (s : List Char) : Option Line := do
  let s ← expect "EFFECT".toList s
  if trimStart s = ['{'] then some .effect else none

/-! ## Header lines -/

/-- The name between two keywords, from the text between them: what blanks leave, or the last but
one of at least three blanks. -/
def readName (s : List Char) : Option (List Char) :=
  match trim s with
  | [] =>
    match s.reverse with
    | _ :: c :: _ :: _ => some [c]
    | _ => none
  | name => if startsBlank s && startsBlank s.reverse then some name else none

/-- The name and the priority of a rule, read from the end of the line, where they are certain. -/
def readRule (s : List Char) : Option Line := do
  let s ← expect "RULE".toList s
  let s ← expect ['{'] s.reverse
  let (digits, s) ← run isDecimal (trimStart s)
  let (number, s) :=
    match expect ['-'] s with
    | some s => ('-' :: digits.reverse, s)
    | none => (digits.reverse, s)
  let s ← expect "PRIORITY".toList.reverse (← expectBlank s)
  let name ← readName s.reverse
  some (.ruleHeader (String.ofList name) ((intValue number).bind toWord))

/-- `ON event(entity.property)` -/
def readOn (s : List Char) : Option Line := do
  let s ← expectBlank (← expect "ON".toList s)
  let (event, s) ← run isWord s
  let s := trimStart (← expect ['('] (trimStart s))
  let inEntity := fun c => !isBlank c && c != '.' && c != ')'
  let entity := s.takeWhile inEntity
  let s := s.dropWhile inEntity
  let inProperty := fun c => !isBlank c && c != ')'
  let (property, s) :=
    match expect ['.'] s with
    | some s => (s.takeWhile inProperty, s.dropWhile inProperty)
    | none => ([], s)
  if trimStart s = [')'] then
    some (.triggerHeader
      { event := String.ofList event
        entity := String.ofList entity
        property := if property = [] then none else some (String.ofList property) })
  else none

/-- One parameter, `name: type` or `name: type?`; text that is neither is passed over. -/
def readParameter (s : List Char) : Option Parameter := do
  let (name, type) ← cut ':' s
  let name := trim name
  let type := trim type
  if name = [] ∨ type = [] then none
  else
    match beforeFinal '?' type with
    | some base => some ⟨String.ofList name, String.ofList (trim base), true⟩
    | none => some ⟨String.ofList name, String.ofList type, false⟩

/-- Parameters with commas between them. -/
def readParameters (s : List Char) : List Parameter := (split ',' s).filterMap readParameter

/-- The name of an action, from the text after the point: what is left without the blanks at its
end, or the first blank if it is all blank. -/
def readActionName (s : List Char) : Option (List Char) :=
  match trimEnd s with
  | [] => s.head?.map ([·])
  | name => some name

/-- `ACTION entity.name(parameters)` and an opening brace. -/
def readAction (s : List Char) : Option Line := do
  let s ← expectBlank (← expect "ACTION".toList s)
  let (entity, s) ← run (fun c => !isBlank c && c != '.') s
  let s ← beforeFinal '{' (← expect ['.'] s)
  match cut '(' s with
  | none =>
    let name ← readActionName s
    some (.actionHeader (String.ofList entity) (String.ofList name) [])
  | some (name, s) =>
    let name ← readActionName name
    let parameters ← beforeFinal ')' (trimEnd s)
    some (.actionHeader (String.ofList entity) (String.ofList name) (readParameters parameters))

/-- `DESCRIPTION: "text"` -/
def readDescription (s : List Char) : Option Line := do
  let text ← beforeFinal '"' (← expectQuoted "DESCRIPTION".toList s)
  some (.descriptionHeader (String.ofList (unescape text)))

/-- What a line says. The keywords keep the kinds apart. -/
def read (s : List Char) : Line :=
  if s = ['}'] then .close
  else
    (readEffect s <|> readSet s <|> readTrigger s <|> readFor s <|> readCall s <|>
      readPrecondition s <|> readFailure s <|> readRule s <|> readOn s <|> readAction s <|>
      readDescription s).getD .other

/-- Whether a line is part of the header of a document. -/
def isHeader : Mode → Line → Bool
  | .rule, .ruleHeader .. | .rule, .triggerHeader _ => true
  | .action, .actionHeader .. | .action, .descriptionHeader _ => true
  | _, _ => false

end Line

/-- A line that is neither blank nor a comment: its number, from 1 on, and its text without the
blanks at its ends. -/
structure SourceLine where
  number : Nat
  text : List Char
  deriving DecidableEq, Repr

/-- The lines of a text from a number on that are neither blank nor comments. -/
def SourceLine.numbered : Nat → List (List Char) → List SourceLine
  | _, [] => []
  | n, l :: ls =>
    if Text.trim l = [] ∨ ['/', '/'].isPrefixOf (Text.trim l) then numbered (n + 1) ls
    else ⟨n, Text.trim l⟩ :: numbered (n + 1) ls

/-- The lines of a document that are neither blank nor comments. -/
def sourceLines (text : String) : List SourceLine :=
  SourceLine.numbered 1 (Text.split '\n' text.toList)

end Blockscript
