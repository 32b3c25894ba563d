import Blockscript.Binary.Codec
import Blockscript.Session.Snapshot

/-!
# Snapshots as bytes

The codecs of all that a snapshot holds, put together from the parts in their order. Bytes after a
snapshot are ignored.
-/

namespace Blockscript.Binary

open Codec

/-- The codec of modes. -/
def mode : Codec Mode :=
  choice (fun | .rule => 0 | .action => 1) (fun | 0 => some .rule | 1 => some .action | _ => none)

/-- The codec of session statuses. -/
def status : Codec SessionStatus :=
  choice (fun | .uninitialized => 0 | .synced => 1 | .dirty => 2)
    (fun | 0 => some .uninitialized | 1 => some .synced | 2 => some .dirty | _ => none)

/-- The codec of block identifiers. -/
def blockId : Codec BlockId := number.via (·.val) (fun n => some ⟨n⟩)

/-- The codec of arguments. -/
def callArg : Codec CallArg :=
  (pair string string).via (fun a => (a.name, a.value)) (fun (name, value) => some ⟨name, value⟩)

/-- The codec of calls. -/
def call : Codec Call :=
  (pair string (pair string (list callArg))).via (fun c => (c.product, c.method, c.args))
    (fun (product, method, args) => some ⟨product, method, args⟩)

/-- The codec of what blocks say. -/
def kind : Codec BlockKind where
  write
    | .set target value => index.write 0 ++ (pair string string).write (target, value)
    | .trigger entity action target =>
      index.write 1 ++ (pair string (pair string string)).write (entity, action, target)
    | .forEach binder entity conditions =>
      index.write 2 ++
        (pair string (pair string (option string))).write (binder, entity, conditions)
    | .precondition label conditions onFailure =>
      index.write 3 ++
        (pair string (pair string (option string))).write (label, conditions, onFailure)
    | .call c => index.write 4 ++ call.write c
  read bytes := (index.read bytes).bind fun (i, rest) =>
    match i with
    | 0 => ((pair string string).read rest).map fun ((target, value), rest) =>
        (.set target value, rest)
    | 1 => ((pair string (pair string string)).read rest).map
        fun ((entity, action, target), rest) => (.trigger entity action target, rest)
    | 2 => ((pair string (pair string (option string))).read rest).map
        fun ((binder, entity, conditions), rest) => (.forEach binder entity conditions, rest)
    | 3 => ((pair string (pair string (option string))).read rest).map
        fun ((label, conditions, message), rest) => (.precondition label conditions message, rest)
    | 4 => (call.read rest).map fun (c, rest) => (.call c, rest)
    | _ => none

/-- The codec of blocks. -/
def block : Codec Block :=
  (pair blockId kind).via (fun b => (b.id, b.kind)) (fun (id, kind) => some ⟨id, kind⟩)

/-- The codec of triggers. -/
def trigger : Codec Trigger :=
  (pair string (pair string (option string))).via (fun t => (t.event, t.entity, t.property))
    (fun (event, entity, property) => some ⟨event, entity, property⟩)

/-- The codec of parameters. -/
def parameter : Codec Parameter :=
  (pair string (pair string bool)).via (fun p => (p.name, p.type, p.optional))
    (fun (name, type, optional) => some ⟨name, type, optional⟩)

/-- The codec of headers. -/
def header : Codec Header :=
  (pair string (pair (option word) (pair (option trigger) (pair (option string)
      (pair (option string) (list parameter)))))).via
    (fun h => (h.name, h.priority, h.trigger, h.entityType, h.description, h.parameters))
    (fun (name, priority, trigger, entityType, description, parameters) =>
      some ⟨name, priority, trigger, entityType, description, parameters⟩)

/-- The number of entries at the top of an outline. -/
def entryCount : Outline → Nat
  | .nil => 0
  | .cons _ _ next => entryCount next + 1

/-- The entries of an outline: each is a block and the outline below it. -/
def writeEntries : Outline → Bytes
  | .nil => []
  | .cons b below next =>
    block.write b ++ number.write (entryCount below) ++ writeEntries below ++ writeEntries next

/-- So many entries of an outline; the first argument bounds how many are read in all. -/
def readEntries : Nat → Nat → Bytes → Option (Outline × Bytes)
  | _, 0, bytes => some (.nil, bytes)
  | 0, _ + 1, _ => none
  | fuel + 1, count + 1, bytes =>
    (block.read bytes).bind fun (b, rest) =>
      (number.read rest).bind fun (children, rest) =>
        (readEntries fuel children rest).bind fun (below, rest) =>
          (readEntries fuel count rest).map fun (next, rest) => (.cons b below next, rest)

/-- The codec of outlines. Every entry takes a byte at least, so their number is bounded. -/
def outline : Codec Outline where
  write o := number.write (entryCount o) ++ writeEntries o
  read bytes := (number.read bytes).bind fun (count, rest) => readEntries bytes.length count rest

/-- The codec of snapshots. -/
def snapshot : Codec Snapshot :=
  (pair mode (pair header (pair status (pair outline (pair outline (option string)))))).via
    (fun n => (n.mode, n.header, n.status, n.statements, n.preconditions, n.source))
    (fun (mode, header, status, statements, preconditions, source) =>
      some ⟨mode, header, status, statements, preconditions, source⟩)

end Blockscript.Binary

namespace Blockscript.Snapshot

/-- The bytes that a snapshot is saved as. -/
def toBytes (n : Snapshot) : Binary.Bytes := Binary.snapshot.write n

/-- The snapshot at the front of the bytes. -/
def ofBytes? (bytes : Binary.Bytes) : Option Snapshot := (Binary.snapshot.read bytes).map (·.1)

end Blockscript.Snapshot
