import Blockscript.Command.Arguments
import Blockscript.Files.Directory
import Blockscript.Json.Definition
import Blockscript.Json.Snapshot
import Blockscript.Json.Printer

/-!
# Running a command

`Command.run` carries out a command on a `Host`, which reads and writes the files; `Host.directory`
is the host that works on a `Directory`. What a command prints and its exit code make up a `Report`.
-/

namespace Blockscript

/-- What a command may ask of the system it runs on. -/
structure Host (m : Type → Type) where
  read : String → m (Except AccessError String)
  write : String → String → m (Option AccessError)
  /-- How long the command has run so far, if that is to be told. -/
  elapsed : m (Option String)

/-- The host that works on a directory; it tells no time. -/
def Host.directory : Host (StateM (Directory String)) where
  read path := do return (← get).read path
  write path content := do
    match (← get).write path content with
    | .ok d => set d; return none
    | .error why => return some why
  elapsed := return none

/-- Why a command fails. -/
inductive CommandError where
  | readDocument (path : String) (why : AccessError)
  | readHeader (path : String) (why : AccessError)
  | parseHeader
  | writeOutput (path : String) (why : AccessError)
  | unstable
  deriving DecidableEq, Repr

/-- The text of an error. -/
def CommandError.message : CommandError → String
  | .readDocument path why => "Failed to read DSL file '" ++ path ++ "': " ++ why.message
  | .readHeader path why => "Failed to read meta file '" ++ path ++ "': " ++ why.message
  | .parseHeader => "Failed to parse meta JSON: not the members of a header"
  | .writeOutput path why => "Failed to write output file '" ++ path ++ "': " ++ why.message
  | .unstable => "Regenerated text is not stable across a parse/generate cycle."

/-- What a command prints, and its exit code. -/
structure Report where
  code : UInt32
  out : String
  err : String := ""
  deriving DecidableEq, Repr

namespace Report

/-- The report on a command that has done its task. -/
def done (out : String) : Report := { code := 0, out }

/-- The report on a command that fails after it printed something. -/
def failed (out : String) (e : CommandError) : Report :=
  { code := 1, out, err := "\nError: " ++ e.message ++ "\n" }

/-- The report on words that are no command. -/
def usage : Report :=
  { code := 2
    out := ""
    err := "usage: fmt|tree|check PATH [-m|--mode rule|action] [--meta FILE] [-o|--output FILE]\n" }

end Report

/-- The mode that the first line shows. -/
def Script.detectMode (text : String) : Mode :=
  match sourceLines text with
  | l :: _ => if "ACTION".toList.isPrefixOf l.text then .action else .rule
  | [] => .rule

namespace Command

/-- The session on a document, with the header it has itself unless another is given. -/
def openSession (mode : Option Mode) (header : Option Header) (text : String) : Session :=
  let mode := mode.getD (Script.detectMode text)
  let header := header.getD ((Script.header? mode text).getD .blank)
  (Session.new mode header).openText text

/-- The header that a text writes in JSON. -/
def parseHeader? (text : String) : Option Header :=
  (Json.parse text).bind (Header.ofJson Json.maxLevels)

/-! ## Reports -/

/-- A line that gave no block. -/
def skippedToJson (l : SkippedLine) : Json :=
  .obj [("line", Json.ofNat l.number), ("text", .str l.text)]

/-- All that a session shows of its document. -/
def treeJson (s : Session) : Json :=
  .obj [("mode", s.mode.toJson), ("meta", s.header.toJson),
    ("statements", s.statements.outline.toJson), ("preconditions", s.preconditions.outline.toJson),
    ("skipped", .arr (s.skipped.map skippedToJson))]

/-- A number in decimal digits. -/
def numeral (n : Nat) : String := String.ofList (Text.natDigits n)

/-- A number that takes four places at least. -/
def alignedNumeral (n : Nat) : String :=
  let digits := Text.natDigits n
  String.ofList (List.replicate (4 - digits.length) ' ' ++ digits)

/-- The lines that gave no block. -/
def skippedReport (lines : List SkippedLine) : String :=
  match lines with
  | [] => "All lines recognised.\n"
  | _ =>
    numeral lines.length ++ " line(s) dropped by the parser:\n" ++
      String.join (lines.map fun l => "  " ++ alignedNumeral l.number ++ " | " ++ l.text ++ "\n")

/-- How many blocks there are. -/
def summary (s : Session) : String :=
  "\n--- Summary ---\n" ++
    "Statements:     " ++ numeral s.statements.size ++ "\n" ++
    "Preconditions:  " ++ numeral s.preconditions.size ++ "\n"

/-- Whether reading the text of a session and writing it again gives the same text. -/
def isStable (s : Session) : Bool :=
  let again := (Script.parse s.mode .initial s.text).1
  Script.write s.mode s.header again.statements again.preconditions == s.text

/-- The report of a check. -/
def checkReport (s : Session) (elapsed : Option String) : Report :=
  let time := (elapsed.map fun t => "Checked in:     " ++ t ++ "\n").getD ""
  let out := skippedReport s.skipped ++ summary s ++ time
  if isStable s then .done (out ++ "Round trip:     stable\n") else .failed out .unstable

/-! ## Running -/

variable {m : Type → Type} [Monad m]

/-- The session on the document of a command. -/
def load (host : Host m) (c : Command) : m (Except CommandError Session) := do
  match ← host.read c.path with
  | .error why => return .error (.readDocument c.path why)
  | .ok text =>
    match c.header with
    | none => return .ok (openSession c.mode none text)
    | some path =>
      match ← host.read path with
      | .error why => return .error (.readHeader path why)
      | .ok json =>
        match parseHeader? json with
        | none => return .error .parseHeader
        | some header => return .ok (openSession c.mode (some header) text)

/-- Carries out a command. -/
def run (host : Host m) (c : Command) : m Report := do
  match ← load host c with
  | .error e => return .failed "" e
  | .ok s =>
    match c.task with
    | .tree => return .done ((treeJson s).pretty ++ "\n")
    | .check => return checkReport s (← host.elapsed)
    | .format =>
      match c.output with
      | none => return .done (s.text ++ "\n")
      | some path =>
        match ← host.write path (s.text ++ "\n") with
        | some why => return .failed "" (.writeOutput path why)
        | none => return .done ("Formatted document written to '" ++ path ++ "'\n")

/-- Carries out the command that the words give. -/
def runWords (host : Host m) (words : List String) : m Report :=
  match read words with
  | none => return .usage
  | some c => run host c

end Command

end Blockscript
