import Blockscript.Block.Id

/-!
# Blocks

A `Block` is one statement of a rule or action: an assignment, a trigger, a loop over entities, a
precondition or a call of a product's method. `BlockTag` names the five kinds. Only loops may hold
other blocks; which ones is the business of a forest, so a block itself holds text only.
-/

namespace Blockscript

/-- A named argument of a call. -/
structure CallArg where
  name : String
  value : String
  deriving DecidableEq, Repr

/-- A call of a product's method. -/
structure Call where
  product : String
  method : String
  args : List CallArg := []
  deriving DecidableEq, Repr

/-- The value of the first argument called `name`. -/
def Call.arg? (call : Call) (name : String) : Option String :=
  (call.args.find? (·.name = name)).map (·.value)

/-- What a block says. -/
inductive BlockKind where
  /-- `SET target = value;` -/
  | set (target value : String)
  /-- `TRIGGER entity.action ON target;` -/
  | trigger (entity action target : String)
  /-- `FOR (binder: entity WHERE conditions)` and a body in braces -/
  | forEach (binder entity : String) (conditions : Option String)
  /-- `PRECONDITION label: conditions`, with the message for when it fails -/
  | precondition (label conditions : String) (onFailure : Option String)
  /-- `CALL product.method(args);` -/
  | call (call : Call)
  deriving DecidableEq, Repr

/-- The five kinds of block. -/
inductive BlockTag where
  | set | trigger | forEach | precondition | call
  deriving DecidableEq, Repr

/-- The keyword of a kind of block. -/
def BlockTag.keyword : BlockTag → String
  | .set => "SET"
  | .trigger => "TRIGGER"
  | .forEach => "FOR"
  | .precondition => "PRECONDITION"
  | .call => "CALL"

namespace BlockKind

/-- Which of the five kinds it is. -/
def tag : BlockKind → BlockTag
  | .set .. => .set
  | .trigger .. => .trigger
  | .forEach .. => .forEach
  | .precondition .. => .precondition
  | .call _ => .call

/-- Whether blocks may be nested under it. -/
def isContainer (kind : BlockKind) : Bool := kind.tag == .forEach

/-- The call, if it is one. -/
def call? : BlockKind → Option Call
  | .call c => some c
  | _ => none

end BlockKind

/-- A statement with its identifier. -/
structure Block where
  id : BlockId
  kind : BlockKind
  deriving DecidableEq, Repr

/-- Which of the five kinds a block is. -/
def Block.tag (b : Block) : BlockTag := b.kind.tag

/-- Whether blocks may be nested under a block. -/
def Block.isContainer (b : Block) : Bool := b.kind.isContainer

end Blockscript
