import Blockscript.Json.Block
import Blockscript.Json.Header
import Blockscript.Session.Snapshot

/-!
# Snapshots as JSON

The JSON shape of a snapshot. A snapshot without its source has none; one that is written as an
array needs all its values.
-/

namespace Blockscript

open Json

/-- The name of a status in a snapshot. -/
def SessionStatus.label : SessionStatus → String
  | .uninitialized => "Uninitialized"
  | .synced => "Synced"
  | .dirty => "Dirty"

/-- The status of that name in a snapshot. -/
def SessionStatus.ofLabel? : String → Option SessionStatus
  | "Uninitialized" => some .uninitialized
  | "Synced" => some .synced
  | "Dirty" => some .dirty
  | _ => none

/-- The name of a status. -/
def SessionStatus.toJson (s : SessionStatus) : Json := .str s.label

/-- Reads the name of a status. -/
def SessionStatus.ofJson : Decoder SessionStatus := Decoder.choice SessionStatus.ofLabel?

/-- All members of a snapshot. -/
def Snapshot.toJson (n : Snapshot) : Json :=
  .obj [("mode", n.mode.toJson), ("meta", n.header.toJson), ("state", n.status.toJson),
    ("statements", n.statements.toJson), ("preconditions", n.preconditions.toJson),
    ("source", ofOption .str n.source)]

/-- Reads a snapshot. -/
def Snapshot.ofJson : Decoder Snapshot :=
  Decoder.record
    [{ name := "mode" }, { name := "meta" }, { name := "state" }, { name := "statements" },
      { name := "preconditions" }, { name := "source" }]
    fun levels values =>
      match values with
      | [mode, header, status, statements, preconditions, source] => do
        let mode ← Decoder.required Mode.ofJson levels mode
        let header ← Decoder.required Header.ofJson levels header
        let status ← Decoder.required SessionStatus.ofJson levels status
        let statements ← Decoder.required Outline.ofJson levels statements
        let preconditions ← Decoder.required Outline.ofJson levels preconditions
        let source ← Decoder.orElse (Decoder.nullable Decoder.string) none levels source
        some { mode, header, status, statements, preconditions, source }
      | _ => none

end Blockscript
