import Blockscript.Session.Basic

/-!
# Snapshots of a session

A `Snapshot` holds what a session cannot do without: mode, header, status, blocks and the last text
of the host. `Session.restore` makes a session of it that keeps the identifiers of the blocks and
takes new ones from past them. Listeners and call editors are not kept.
-/

namespace Blockscript

/-- What is saved of a session. -/
structure Snapshot where
  mode : Mode
  header : Header
  status : SessionStatus
  statements : Outline
  preconditions : Outline
  source : Option String
  deriving DecidableEq, Repr

namespace Session

/-- The snapshot of a session. -/
def snapshot (s : Session) : Snapshot :=
  { mode := s.mode
    header := s.header
    status := s.status
    statements := s.statements.outline
    preconditions := s.preconditions.outline
    source := s.source }

/-- The session of a snapshot, as far as its forests admit the blocks. -/
def restore (n : Snapshot) : Session :=
  let s := Session.new n.mode n.header
  let statements := Forest.ofOutline .statements n.statements
  let preconditions := Forest.ofOutline .preconditions n.preconditions
  let blocks := statements.walk ++ preconditions.walk
  let ids := blocks.foldl (fun ids b => ids.reservePast b.2.id) s.ids
  { s with statements, preconditions, ids, source := n.source, status := n.status }.regenerate

end Session

end Blockscript
