import Blockscript.Proofs.Forest.Renamed
import Blockscript.Proofs.Script.Parsed

/-!
# Documents under other identifiers

Identifiers make no difference to a document. Forests of the same structure are written as the same
text (`write_eq_of_sameStructure`), and a reading that starts from another supply gives the same
blocks, each with an identifier so many places later (`parse_eq_rename`), and skips the same lines
(`alike_parse`).
-/

namespace Blockscript

/-! ## Documents alike -/

namespace Script

/-- Whether two documents have the same blocks but for their identifiers. -/
structure BlocksAlike (a b : Script) : Prop where
  statements : a.statements.sameStructure b.statements = true
  preconditions : a.preconditions.sameStructure b.preconditions = true

/-- Whether, besides, they skip the same lines. -/
structure Alike (a b : Script) : Prop extends BlocksAlike a b where
  skipped_eq : b.skipped = a.skipped

/-- Whether the forests of a document are built by edits. -/
structure Built (a : Script) : Prop where
  statements : Forest.Built .statements a.statements
  preconditions : Forest.Built .preconditions a.preconditions

theorem Built.parse (mode : Mode) (ids : IdSupply) (text : String) :
    (Script.parse mode ids text).1.Built :=
  have h := built_parse mode ids text
  ⟨h.1, h.2⟩

variable {a b c : Script}

/-- Documents have the same blocks if their nested forms differ in identifiers only. -/
theorem Built.blocksAlike_iff (ha : a.Built) (hb : b.Built) : BlocksAlike a b ↔
    a.statements.outline.anonymous = b.statements.outline.anonymous ∧
      a.preconditions.outline.anonymous = b.preconditions.outline.anonymous := by
  have hS := ha.statements.represents.sameStructure_iff hb.statements.represents
  have hP := ha.preconditions.represents.sameStructure_iff hb.preconditions.represents
  exact ⟨fun h => ⟨hS.1 h.statements, hP.1 h.preconditions⟩, fun h => ⟨hS.2 h.1, hP.2 h.2⟩⟩

/-- Of documents with the same blocks, a third one has the blocks of both or of neither. -/
theorem BlocksAlike.congr_left (h : BlocksAlike a b) (ha : a.Built) (hb : b.Built) (hc : c.Built) :
    BlocksAlike a c ↔ BlocksAlike b c := by
  obtain ⟨hS, hP⟩ := (ha.blocksAlike_iff hb).1 h
  rw [ha.blocksAlike_iff hc, hb.blocksAlike_iff hc, hS, hP]

end Script

/-! ## Writing -/

theorem Outline.kinds_anonymous (o : Outline) : o.anonymous.kinds = o.kinds := by
  induction o with
  | nil => rfl
  | cons b below next ihBelow ihNext => rw [anonymous, kinds, kinds, ihBelow, ihNext]

namespace Script

theorem statementLines_anonymous (depth : ℕ) (o : Outline) :
    statementLines depth o.anonymous = statementLines depth o := by
  induction o generalizing depth with
  | nil => rfl
  | cons b below next ihBelow ihNext =>
    rw [Outline.anonymous, statementLines, statementLines, ihBelow, ihNext]
    rfl

/-- **Forests of the same structure** are written as the same text. -/
theorem write_eq_of_sameStructure {S S' P P' : Forest} {s s' p p' : Outline} (hS : S.Represents s)
    (hS' : S'.Represents s') (hP : P.Represents p) (hP' : P'.Represents p')
    (hstatements : S.sameStructure S' = true) (hpreconditions : P.sameStructure P' = true)
    (mode : Mode) (header : Header) : write mode header S' P' = write mode header S P := by
  have hlines : ∀ depth, statementLines depth s' = statementLines depth s := by
    intro depth
    rw [← statementLines_anonymous, ← (hS.sameStructure_iff hS').1 hstatements,
      statementLines_anonymous]
  have hkinds : p'.kinds = p.kinds := by
    rw [← Outline.kinds_anonymous, ← (hP.sameStructure_iff hP').1 hpreconditions,
      Outline.kinds_anonymous]
  cases mode with
  | rule =>
    rw [write, write, lines, lines, hS.outline_eq, hS'.outline_eq, ruleLines, ruleLines, hlines]
  | action =>
    rw [write, write, lines, lines, hS.outline_eq, hS'.outline_eq, hP.walk_eq, hP'.walk_eq,
      actionLines, actionLines, hlines, flatMap_preconditionLines_walk,
      flatMap_preconditionLines_walk, hkinds]

/-- **Documents with the same blocks** are written as the same text. -/
theorem write_eq_of_blocksAlike {a b : Script} (h : BlocksAlike a b) (ha : a.Built) (hb : b.Built)
    (mode : Mode) (header : Header) : write mode header b.statements b.preconditions =
      write mode header a.statements a.preconditions :=
  write_eq_of_sameStructure ha.statements.represents hb.statements.represents
    ha.preconditions.represents hb.preconditions.represents h.statements h.preconditions mode header

end Script

/-! ## Reading -/

/-- The identifier that is handed out `d` places later. -/
def BlockId.later (d : ℕ) (id : BlockId) : BlockId := ⟨id.val + d⟩

theorem BlockId.injective_later (d : ℕ) : Function.Injective (BlockId.later d) := fun id id' h => by
  have hval : id.val + d = id'.val + d := congrArg BlockId.val h
  obtain ⟨n⟩ := id
  obtain ⟨n'⟩ := id'
  exact congrArg BlockId.mk (Nat.add_right_cancel hval)

/-- The supply once `d` more identifiers have been handed out. -/
def IdSupply.later (d : ℕ) (s : IdSupply) : IdSupply := ⟨s.next + d⟩

theorem IdSupply.later_advance (d : ℕ) (s : IdSupply) : (s.later d).advance = s.advance.later d :=
  congrArg IdSupply.mk (Nat.add_right_comm s.next d 1)

namespace Script

namespace Progress

/-- The reading with all its identifiers `d` places later. -/
def later (d : ℕ) (p : Progress) : Progress :=
  { p with
    ids := p.ids.later d
    statements := p.statements.rename (BlockId.later d)
    preconditions := p.preconditions.rename (BlockId.later d)
    loops := p.loops.map (BlockId.later d)
    awaiting := p.awaiting.map (BlockId.later d) }

variable (d : ℕ) (p : Progress)

theorem place_later : (p.later d).place = p.place.rename (BlockId.later d) := by
  unfold place later
  cases p.loops <;> rfl

theorem addStatement_later (kind : BlockKind) :
    (p.later d).addStatement kind = (p.addStatement kind).later d := by
  have hadd := Forest.add?_rename (BlockId.injective_later d) p.statements p.place
    ⟨p.ids.fresh, kind⟩
  have hstatements := Option.getD_map (Forest.rename (BlockId.later d)) p.statements
    (p.statements.add? p.place ⟨p.ids.fresh, kind⟩)
  have hloops : (if kind.isContainer then (p.ids.later d).fresh :: p.loops.map (BlockId.later d)
      else p.loops.map (BlockId.later d)) =
      (if kind.isContainer then p.ids.fresh :: p.loops else p.loops).map (BlockId.later d) := by
    split <;> rfl
  unfold addStatement
  rw [place_later]
  unfold later
  dsimp only
  rw [hloops, IdSupply.later_advance, ← hstatements, ← hadd]
  rfl

theorem addPrecondition_later (label conditions : String) :
    (p.later d).addPrecondition label conditions =
      (p.addPrecondition label conditions).later d := by
  have hadd := Forest.add?_rename (BlockId.injective_later d) p.preconditions .top
    ⟨p.ids.fresh, .precondition label conditions none⟩
  have hpreconditions := Option.getD_map (Forest.rename (BlockId.later d)) p.preconditions
    (p.preconditions.add? .top ⟨p.ids.fresh, .precondition label conditions none⟩)
  unfold addPrecondition later
  dsimp only
  rw [IdSupply.later_advance, ← hpreconditions, ← hadd]
  rfl

theorem setMessage_later (id : BlockId) (message : String) :
    (p.later d).setMessage (id.later d) message = (p.setMessage id message).later d := by
  have hupdate := p.preconditions.update?_rename (BlockId.injective_later d) id .onFailure
    (.text message)
  have hpreconditions := Option.getD_map (Forest.rename (BlockId.later d)) p.preconditions
    (p.preconditions.update? id .onFailure (.text message))
  unfold setMessage later
  dsimp only
  rw [hupdate, hpreconditions]

theorem take?_later (mode : Mode) (said : Line) :
    (p.later d).take? mode said = (p.take? mode said).map (later d) := by
  have hquiet : ({ p.later d with awaiting := none } : Progress) =
      later d { p with awaiting := none } := rfl
  unfold take?
  rw [hquiet]
  cases said with
  | statement kind =>
    have haccepts : (later d { p with awaiting := none }).acceptsStatements mode =
        acceptsStatements { p with awaiting := none } mode := rfl
    cases mode <;>
    · dsimp only
      rw [haccepts, addStatement_later]
      split <;> rfl
  | precondition label conditions =>
    cases mode with
    | rule => rfl
    | action => exact congrArg some (addPrecondition_later d _ label conditions)
  | failure message =>
    cases mode with
    | rule => rfl
    | action =>
      have hawaiting : (p.later d).awaiting = p.awaiting.map (BlockId.later d) := rfl
      dsimp only
      rw [hawaiting, Option.map_map, Option.map_map]
      exact Option.map_congr fun id _ => setMessage_later d _ id message
  | close =>
    have htail : (p.loops.map (BlockId.later d)).tail = p.loops.tail.map (BlockId.later d) :=
      List.map_tail.symm
    cases mode <;>
    · dsimp only [later, Option.map_some]
      rw [htail]
  | _ => cases mode <;> rfl

/-- **A line** is read the same under later identifiers. -/
theorem step_later (mode : Mode) (line : SourceLine) :
    (p.later d).step mode line = (p.step mode line).later d := by
  rw [step_eq, step_eq, take?_later]
  cases p.take? mode (Line.read line.text) <;> rfl

/-- **A reading** that starts `d` identifiers later gives the same blocks, each of them `d`
identifiers later. -/
theorem progress_later (mode : Mode) (ids : IdSupply) (text : String) :
    progress mode (ids.later d) text = (progress mode ids text).later d := by
  unfold progress
  generalize sourceLines text = lines
  have hstart : ({ ids := ids.later d } : Progress) = later d { ids } := rfl
  rw [hstart]
  generalize ({ ids } : Progress) = p
  induction lines generalizing p with
  | nil => rfl
  | cons line lines ih => rw [List.foldl_cons, List.foldl_cons, step_later, ih]

end Progress

/-- The document under other identifiers. -/
def rename (r : BlockId → BlockId) (a : Script) : Script :=
  ⟨a.statements.rename r, a.preconditions.rename r, a.skipped⟩

/-- **Reading a text** with some supply gives what the first supply gives, under identifiers so many
places later. -/
theorem parse_eq_rename (mode : Mode) (ids : IdSupply) (text : String) :
    (parse mode ids text).1 = (parse mode .initial text).1.rename (BlockId.later ids.next) := by
  have hids : IdSupply.initial.later ids.next = ids := congrArg IdSupply.mk (Nat.zero_add _)
  unfold parse
  rw [← hids, Progress.progress_later, hids]
  rfl

/-- A text is read as the same document whatever the supply. -/
theorem alike_parse (mode : Mode) (ids ids' : IdSupply) (text : String) :
    Alike (parse mode ids text).1 (parse mode ids' text).1 := by
  have hbuilt := Built.parse mode ids text
  have hbuilt' := Built.parse mode ids' text
  -- Renaming along an injection keeps the form of either forest, whichever supply it comes from.
  have hform : ∀ (f : Forest) (n n' : ℕ), (f.rename (BlockId.later n)).outline.anonymous =
      (f.rename (BlockId.later n')).outline.anonymous := by
    intro f n n'
    rw [Forest.anonymous_outline_rename (BlockId.injective_later n),
      Forest.anonymous_outline_rename (BlockId.injective_later n')]
  rw [parse_eq_rename mode ids] at hbuilt ⊢
  rw [parse_eq_rename mode ids'] at hbuilt' ⊢
  exact ⟨(hbuilt.blocksAlike_iff hbuilt').2 ⟨hform _ _ _, hform _ _ _⟩, rfl⟩

end Script

end Blockscript
