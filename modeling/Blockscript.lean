import Blockscript.Text.Blank
import Blockscript.Text.Scan
import Blockscript.Text.Lines
import Blockscript.Text.Quoted
import Blockscript.Text.Word
import Blockscript.Text.Decimal
import Blockscript.Block.Id
import Blockscript.Block.Kind
import Blockscript.Block.Field
import Blockscript.Forest.Outline
import Blockscript.Forest.Basic
import Blockscript.Forest.History
import Blockscript.Script.Header
import Blockscript.Script.Arguments
import Blockscript.Script.Line
import Blockscript.Script.Parser
import Blockscript.Script.Clean
import Blockscript.Script.Printer
import Blockscript.Json.Range
import Blockscript.Json.Value
import Blockscript.Json.Parser
import Blockscript.Json.Printer
import Blockscript.Json.Decoder
import Blockscript.Table
import Blockscript.Call.Catalogue
import Blockscript.Call.Editor
import Blockscript.Session.Basic
import Blockscript.Session.Snapshot
import Blockscript.Binary.Codec
import Blockscript.Binary.Snapshot
import Blockscript.Store.Definition
import Blockscript.Json.Block
import Blockscript.Json.Header
import Blockscript.Json.Snapshot
import Blockscript.Json.Definition
import Blockscript.Json.Catalogue
import Blockscript.Files.Directory
import Blockscript.Session.File
import Blockscript.Command.Arguments
import Blockscript.Command.Run
import Blockscript.Main
import Blockscript.Proofs.Text.Trim
import Blockscript.Proofs.Text.Reading
import Blockscript.Proofs.Text.Names
import Blockscript.Proofs.Text.Cleaned
import Blockscript.Proofs.Arguments.Pieces
import Blockscript.Proofs.Arguments.WellFormed
import Blockscript.Proofs.Arguments.Lossless
import Blockscript.Proofs.Arguments.Settled
import Blockscript.Proofs.Script.Normal
import Blockscript.Proofs.Script.StatementLine
import Blockscript.Proofs.Script.HeaderLine
import Blockscript.Proofs.Script.Parameters
import Blockscript.Proofs.Script.Said
import Blockscript.Proofs.Forest.Nodes
import Blockscript.Proofs.Forest.Represents
import Blockscript.Proofs.Forest.Enclosing
import Blockscript.Proofs.Forest.Edits
import Blockscript.Proofs.Forest.Attach
import Blockscript.Proofs.Forest.Numbered
import Blockscript.Proofs.Script.Rebuilt
import Blockscript.Proofs.Script.Stable
import Blockscript.Proofs.Script.Parsed
import Blockscript.Proofs.Forest.WellFormed
import Blockscript.Proofs.Forest.Swept
import Blockscript.Proofs.Forest.Blocks
import Blockscript.Proofs.Forest.Nested
import Blockscript.Proofs.Forest.Spine
import Blockscript.Proofs.Forest.Same
import Blockscript.Proofs.Forest.Renamed
import Blockscript.Proofs.Forest.Moved
import Blockscript.Proofs.Forest.Preorder
import Blockscript.Proofs.Forest.Pruned
import Blockscript.Proofs.Script.Drawn
import Blockscript.Proofs.Script.Uses
import Blockscript.Proofs.Script.LineByLine
import Blockscript.Proofs.Script.Layout
import Blockscript.Proofs.Script.HeaderRead
import Blockscript.Proofs.Script.HeaderFields
import Blockscript.Proofs.Script.RoundTrip
import Blockscript.Proofs.Script.Renumbered
import Blockscript.Proofs.Session.InStep
import Blockscript.Proofs.Session.Run
import Blockscript.Proofs.Session.Frame
import Blockscript.Proofs.Session.RoundTrip
import Blockscript.Proofs.Session.Identifiers
import Blockscript.Proofs.Session.Sound
import Blockscript.Proofs.Files.Directory
import Blockscript.Proofs.Command.Stable
import Blockscript.Proofs.Command.Format
import Blockscript.Proofs.Session.Calls
import Blockscript.Proofs.Session.Tickets
import Blockscript.Proofs.Session.Answers
import Blockscript.Proofs.Session.Resync
import Blockscript.Proofs.Session.Reissued
import Blockscript.Proofs.Store.Reopened
import Blockscript.Proofs.Session.Reports
import Blockscript.Proofs.Binary.Codec
import Blockscript.Proofs.Binary.Snapshot
import Blockscript.Proofs.Session.Restored
import Blockscript.Proofs.Binary.Format
import Blockscript.Proofs.Forest.Located
import Blockscript.Proofs.Session.FreeText
import Blockscript.Proofs.Script.Structure
import Blockscript.Proofs.Session.TextLine
import Blockscript.Proofs.Session.Form
import Blockscript.Proofs.Forest.Replaced
import Blockscript.Proofs.Script.Spliced
import Blockscript.Proofs.Session.Spliced
import Blockscript.Proofs.Forest.Versions
import Blockscript.Proofs.Arguments.Separators
import Blockscript.Proofs.Block.Slots
import Blockscript.Proofs.Json.Text
import Blockscript.Proofs.Json.Wording
import Blockscript.Proofs.Json.Levels
import Blockscript.Proofs.Json.Block
import Blockscript.Proofs.Json.Outline
import Blockscript.Proofs.Json.Header
import Blockscript.Proofs.Json.Definition
import Blockscript.Proofs.Json.Snapshot
import Blockscript.Proofs.Script.Quoted
