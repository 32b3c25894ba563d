import Blockscript.Script.Header
import Blockscript.Text.Scan

/-!
# The command line

A command names a task, the path of a document and options. Options may stand before or after the
path, take their value from the same word or the next one, and may be given once. A word that starts
with a hyphen is an option, unless it is the hyphen alone or comes after `--`.
-/

namespace Blockscript

/-- What is to be done with a document. -/
inductive Task where
  /-- Write it anew, to a file if one is named. -/
  | format
  /-- Print its blocks as JSON. -/
  | tree
  /-- Report the lines that say nothing, and whether writing is stable. -/
  | check
  deriving DecidableEq, Repr

/-- The task of that name. -/
def Task.ofName? : String → Option Task
  | "fmt" => some .format
  | "tree" => some .tree
  | "check" => some .check
  | _ => none

/-- A task with what the command line says about it. -/
structure Command where
  task : Task
  /-- The path of the document. -/
  path : String
  /-- The mode of the document; it shows in the first line otherwise. -/
  mode : Option Mode := none
  /-- The path of a header in JSON; it is read from the document otherwise. -/
  header : Option String := none
  /-- The path to write to; standard output otherwise. -/
  output : Option String := none
  deriving DecidableEq, Repr

namespace Command

/-- The options of a command. -/
inductive OptionName where
  | mode | header | output
  deriving DecidableEq, Repr

/-- The option of that long name. -/
def OptionName.ofLong? : List Char → Option OptionName
  | ['m', 'o', 'd', 'e'] => some .mode
  | ['m', 'e', 't', 'a'] => some .header
  | ['o', 'u', 't', 'p', 'u', 't'] => some .output
  | _ => none

/-- The option of that letter. -/
def OptionName.ofShort? : Char → Option OptionName
  | 'm' => some .mode
  | 'o' => some .output
  | _ => none

/-- Words of the command line, told apart. -/
inductive Word where
  /-- A path, or the value of an option. -/
  | plain (text : String)
  /-- An option, with its value if it is in the same word. -/
  | option (name : OptionName) (value : Option String)
  /-- The end of the options. -/
  | endOfOptions
  | unknown
  deriving DecidableEq, Repr

/-- What a word is. -/
def Word.read (word : String) : Word :=
  match word.toList with
  | ['-', '-'] => .endOfOptions
  | '-' :: '-' :: s =>
    let name := s.takeWhile (· ≠ '=')
    let value :=
      match s.dropWhile (· ≠ '=') with
      | [] => none
      | _ :: v => some (String.ofList v)
    match OptionName.ofLong? name with
    | some o => .option o value
    | none => .unknown
  | '-' :: c :: s =>
    let value :=
      match s with
      | [] => none
      | '=' :: v => some (String.ofList v)
      | v => some (String.ofList v)
    match OptionName.ofShort? c with
    | some o => .option o value
    | none => .unknown
  | _ => .plain word

/-- The mode of that name. -/
def modeOfName? : String → Option Mode
  | "rule" => some .rule
  | "action" => some .action
  | _ => none

/-- What the words have said so far; the path may still be open. -/
structure Draft where
  path : Option String := none
  mode : Option Mode := none
  header : Option String := none
  output : Option String := none

/-- A path taken note of; there is only one. -/
def Draft.setPath (d : Draft) (path : String) : Option Draft :=
  if d.path.isNone then some { d with path := some path } else none

/-- An option taken note of, once, where the task has it. -/
def Draft.setOption (task : Task) (d : Draft) (name : OptionName) (value : String) : Option Draft :=
  match name with
  | .mode =>
    if d.mode.isNone then (modeOfName? value).map fun m => { d with mode := some m } else none
  | .header => if d.header.isNone then some { d with header := some value } else none
  | .output =>
    if d.output.isNone ∧ task = .format then some { d with output := some value } else none

/-- The words after the end of the options: paths all of them. -/
def readPaths : Draft → List String → Option Draft
  | d, [] => some d
  | d, w :: ws => (d.setPath w).bind fun d => readPaths d ws

/-- The words after the task. -/
def readWords (task : Task) : Draft → List String → Option Draft
  | d, [] => some d
  | d, [w] =>
    match Word.read w with
    | .plain path => d.setPath path
    | .option name (some value) => d.setOption task name value
    | .endOfOptions => some d
    | _ => none
  | d, w :: v :: ws =>
    match Word.read w with
    | .plain path => (d.setPath path).bind fun d => readWords task d (v :: ws)
    | .option name (some value) =>
      (d.setOption task name value).bind fun d => readWords task d (v :: ws)
    | .option name none =>
      match Word.read v with
      | .plain value => (d.setOption task name value).bind fun d => readWords task d ws
      | _ => none
    | .endOfOptions => readPaths d (v :: ws)
    | .unknown => none

/-- The command that the words give, none if they are no proper command. -/
def read : List String → Option Command
  | [] => none
  | name :: words => do
    let task ← Task.ofName? name
    let d ← readWords task {} words
    let path ← d.path
    some { task, path, mode := d.mode, header := d.header, output := d.output }

end Command

end Blockscript
