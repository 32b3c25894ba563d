import Blockscript.Forest.Basic

/-!
# Histories of a forest

Hosts keep earlier forests and want to know what an edit left alone. A `Version` dates the forest
and each of its nodes: an edit that changes something dates the forest and the nodes it writes with
a date that no earlier version has, and an edit that changes nothing gives back the very same
version. `Version.isSame` and `Version.shares` compare dates only.
-/

namespace Blockscript

/-- An edit of a forest. -/
inductive Edit where
  | add (place : Place) (block : Block)
  | update (id : BlockId) (field : BlockField) (value : FieldValue)
  | remove (id : BlockId)
  | reorder (active goal : BlockId)
  deriving Repr

namespace Forest

/-- The forest after an edit, if it changes anything. -/
def edit? (f : Forest) : Edit → Option Forest
  | .add place b => f.add? place b
  | .update id field value => f.update? id field value
  | .remove id => f.remove? id
  | .reorder a o => f.reorder? a o

/-- The block that a place is under. -/
def owner : Option Place → List BlockId
  | some (.under id) => [id]
  | _ => []

/-- The blocks whose nodes an edit writes. -/
def written (f : Forest) : Edit → List BlockId
  | .add place b => b.id :: owner (some place)
  | .update id _ _ => [id]
  | .remove id => owner (f.place? id)
  | .reorder a _ => owner (f.place? a)

end Forest

/-- A forest with the date of its last change and of the last change of each node. -/
structure Version where
  forest : Forest
  date : Nat
  nodeDate : BlockId → Nat

namespace Version

/-- A forest made from nothing at the given date. -/
def initial (date : Nat) (f : Forest) : Version := ⟨f, date, fun _ => date⟩

/-- The version that an edit at the given date leads to. -/
def edit (v : Version) (date : Nat) (e : Edit) : Version :=
  match v.forest.edit? e with
  | none => v
  | some f => ⟨f, date, fun id => if id ∈ v.forest.written e then date else v.nodeDate id⟩

/-- Whether two versions are one and the same. -/
def isSame (v w : Version) : Bool := v.date == w.date

/-- Whether two versions share the node of a block. -/
def shares (v w : Version) (id : BlockId) : Bool :=
  v.forest.contains id && w.forest.contains id && v.nodeDate id == w.nodeDate id

end Version

end Blockscript
