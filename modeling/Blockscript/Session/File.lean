import Blockscript.Binary.Snapshot
import Blockscript.Files.Directory

/-!
# Snapshot files

Saving a snapshot in a file and loading it again. Loading fails if the file cannot be read or does
not start with a snapshot.
-/

namespace Blockscript

/-- Why a snapshot cannot be saved or loaded. -/
inductive SnapshotError where
  | decode
  | access (path : String) (why : AccessError)
  deriving DecidableEq, Repr

/-- The text of an error. -/
def SnapshotError.message : SnapshotError → String
  | .decode => "Snapshot deserialization failed"
  | .access path why => "Snapshot file '" ++ path ++ "' could not be accessed: " ++ why.message

namespace Snapshot

/-- The directory with the snapshot saved at a path. -/
def save (n : Snapshot) (path : String) (d : Directory Binary.Bytes) :
    Except SnapshotError (Directory Binary.Bytes) :=
  (d.write path n.toBytes).mapError (SnapshotError.access path)

/-- The snapshot at a path. -/
def load (path : String) (d : Directory Binary.Bytes) : Except SnapshotError Snapshot :=
  match d.read path with
  | .error why => .error (.access path why)
  | .ok bytes =>
    match ofBytes? bytes with
    | none => .error .decode
    | some n => .ok n

end Snapshot

end Blockscript
