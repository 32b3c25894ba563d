import Blockscript.Proofs.Forest.Spine
import Blockscript.Proofs.Script.Drawn

/-!
# What a line comes to

What a line of a document comes to depends on what the lines before it say, and on no more of them
than whether one is an `EFFECT` line and what the nearest one is: `Line.use`. From that the depth at
which a line stands and the number of blocks before it are counted, without a forest or open loops.
`Progress.Follows` says that a reader agrees with the count, and every line keeps it
(`Follows.step`).
-/

namespace Blockscript

namespace Line

/-- What a line comes to in its place. -/
inductive Use where
  /-- A statement of that kind -/
  | statement (kind : BlockKind)
  /-- A precondition -/
  | precondition (label conditions : String)
  /-- The message of the precondition on the line before -/
  | message (text : String)
  /-- The start of the body of an action -/
  | effect
  /-- The end of the innermost open loop, or of none -/
  | close
  /-- A part of the header -/
  | header
  /-- Nothing: the line is skipped -/
  | dropped
  deriving DecidableEq, Repr

/-- Whether statements count after the given lines: in an action, if one is an `EFFECT` line. -/
def opened (mode : Mode) (before : List Line) : Bool := mode == .rule || decide (.effect ∈ before)

/-- Whether the first of the given lines, which is the nearest, is a precondition. -/
def isAfterPrecondition : List Line → Bool
  | .precondition .. :: _ => true
  | _ => false

/-- What a line comes to after the given lines, the nearest of them first. -/
def use (mode : Mode) (before : List Line) : Line → Use
  | .statement kind => if opened mode before then .statement kind else .dropped
  | .precondition label conditions =>
    if mode = .action then .precondition label conditions else .dropped
  | .failure message =>
    if mode = .action ∧ isAfterPrecondition before then .message message else .dropped
  | .effect => if mode = .action then .effect else .dropped
  | .close => .close
  | said => if said.isHeader mode then .header else .dropped

/-- The number of blocks that a line makes. -/
def Use.blocks : Use → ℕ
  | .statement _ | .precondition .. => 1
  | _ => 0

/-- The depth after a line, from the depth before it: a loop starts or a brace closes one, if any is
open. -/
def Use.depthAfter (depth : ℕ) : Use → ℕ
  | .statement kind => if kind.isContainer then depth + 1 else depth
  | .close => depth - 1
  | _ => depth

/-- The block that may get a message from the next line, if a line makes the block `id` or none. -/
def Use.awaits (id : BlockId) : Use → Option BlockId
  | .precondition .. => some id
  | _ => none

/-- The number of blocks that the given lines make, the nearest line first. -/
def blockCount (mode : Mode) : List Line → ℕ
  | [] => 0
  | said :: before => blockCount mode before + (said.use mode before).blocks

/-- The depth after the given lines, the nearest line first. -/
def loopDepth (mode : Mode) : List Line → ℕ
  | [] => 0
  | said :: before => (said.use mode before).depthAfter (loopDepth mode before)

/-- The precondition on the nearest of the given lines, with identifiers handed out from `n` on. -/
def awaited (mode : Mode) (n : ℕ) : List Line → Option BlockId
  | [] => none
  | said :: before => (said.use mode before).awaits ⟨n + blockCount mode before⟩

variable {mode : Mode} {before : List Line} {said : Line}

/-- All that a line can come to, and what that takes. -/
inductive ComesTo (mode : Mode) (before : List Line) : Line → Use → Prop
  | statement {kind : BlockKind} (h : opened mode before = true) :
    ComesTo mode before (.statement kind) (.statement kind)
  | precondition {label conditions : String} (h : mode = .action) :
    ComesTo mode before (.precondition label conditions) (.precondition label conditions)
  | message {text : String} (h : mode = .action) (hafter : isAfterPrecondition before = true) :
    ComesTo mode before (.failure text) (.message text)
  | effect (h : mode = .action) : ComesTo mode before .effect .effect
  | close : ComesTo mode before .close .close
  | header {said : Line} (h : said.isHeader mode = true) : ComesTo mode before said .header
  | dropped (said : Line) : ComesTo mode before said .dropped

theorem comesTo_use (mode : Mode) (before : List Line) (said : Line) :
    ComesTo mode before said (said.use mode before) := by
  unfold use
  split
  · split
    · exact .statement ‹_›
    · exact .dropped _
  · split
    · exact .precondition ‹_›
    · exact .dropped _
  · split
    · rename_i h
      exact .message h.1 h.2
    · exact .dropped _
  · split
    · exact .effect ‹_›
    · exact .dropped _
  · exact .close
  · split
    · exact .header ‹_›
    · exact .dropped _

theorem use_eq_effect_iff : said.use mode before = .effect ↔ mode = .action ∧ said = .effect := by
  constructor
  · intro hu
    have h := comesTo_use mode before said
    rw [hu] at h
    cases h with
    | effect h => exact ⟨h, rfl⟩
  · rintro ⟨rfl, rfl⟩
    rfl

theorem use_eq_precondition_iff {label conditions : String} :
    said.use mode before = .precondition label conditions ↔
      mode = .action ∧ said = .precondition label conditions := by
  constructor
  · intro hu
    have h := comesTo_use mode before said
    rw [hu] at h
    cases h with
    | precondition h => exact ⟨h, rfl⟩
  · rintro ⟨rfl, rfl⟩
    rfl

theorem of_use_eq_message {text : String} (hu : said.use mode before = .message text) :
    mode = .action ∧ said = .failure text ∧ isAfterPrecondition before = true := by
  have h := comesTo_use mode before said
  rw [hu] at h
  cases h with
  | message h hafter => exact ⟨h, rfl, hafter⟩

theorem tag_of_use_eq_statement {kind : BlockKind} (hs : said.Admissible)
    (hu : said.use mode before = .statement kind) : kind.tag ≠ .precondition := by
  have h := comesTo_use mode before said
  rw [hu] at h
  cases h with
  | statement => exact hs

theorem opened_cons : opened mode (said :: before) =
    (opened mode before || decide (said.use mode before = .effect)) := by
  rw [opened, opened, Bool.eq_iff_iff]
  simp only [Bool.or_eq_true, beq_iff_eq, decide_eq_true_eq, List.mem_cons, use_eq_effect_iff]
  cases mode <;> simp [or_comm, eq_comm]

theorem awaited_rule (n : ℕ) (before : List Line) : awaited .rule n before = none := by
  cases before with
  | nil => rfl
  | cons said before =>
    rcases hu : said.use .rule before with _ | ⟨label, conditions⟩
    case precondition => cases (use_eq_precondition_iff.1 hu).1
    all_goals exact congrArg (Use.awaits _) hu

theorem isAfterPrecondition_eq (before : List Line) (n : ℕ) :
    isAfterPrecondition before = (awaited .action n before).isSome := by
  cases before with
  | nil => rfl
  | cons said before =>
    cases said with
    | statement kind =>
      rw [awaited, use]
      split <;> rfl
    | failure message =>
      rw [awaited, use]
      split <;> rfl
    | _ => rfl

end Line

namespace Script.Progress

variable {mode : Mode} {start : IdSupply} {before : List Line} {p : Progress} {line : SourceLine}

/-! ## Blocks that are read -/

theorem place_eq (p : Progress) : p.place = .innermost p.loops := by
  unfold place
  cases p.loops <;> rfl

/-- A statement that is read is pushed under the innermost open loop. -/
theorem represents_addStatement (hr : p.Ready) (hs : p.Sound) {kind : BlockKind}
    (htag : kind.tag ≠ .precondition) : (p.addStatement kind).statements.Represents
      (p.statements.outline.push ⟨p.ids.fresh, kind⟩ (.innermost p.loops)) := by
  obtain ⟨g, hg⟩ := hr.exists_add? htag
  have hstatements : (p.addStatement kind).statements = g := by
    rw [addStatement, hg]
    rfl
  rw [hstatements, ← place_eq]
  exact hs.statements.represents.push_of_add? hg

/-- A statement that is read comes last, as deep as there are open loops. -/
theorem walk_addStatement (hr : p.Ready) (hs : p.Sound) {kind : BlockKind}
    (htag : kind.tag ≠ .precondition) (h : p.statements.outline.Spine p.loops) :
    (p.addStatement kind).statements.walk =
      p.statements.walk ++ [(p.loops.length, ⟨p.ids.fresh, kind⟩)] := by
  have hrepresents := hs.statements.represents
  have hwalk := h.walk_push hrepresents.nodup ⟨p.ids.fresh, kind⟩ 0
  rwa [← (represents_addStatement hr hs htag).walk_eq, ← hrepresents.walk_eq,
    Nat.zero_add] at hwalk

/-- A precondition that is read comes last. -/
theorem walk_addPrecondition (ho : p.Open) (hs : p.Sound) (label conditions : String) :
    (p.addPrecondition label conditions).preconditions.walk =
      p.preconditions.walk ++ [(0, ⟨p.ids.fresh, .precondition label conditions none⟩)] := by
  obtain ⟨g, hg⟩ := ho.exists_add? (.precondition label conditions none) rfl
  have hpreconditions : (p.addPrecondition label conditions).preconditions = g := by
    rw [addPrecondition, hg]
    rfl
  have h := hs.preconditions.represents
  rw [hpreconditions, (h.push_of_add? hg).walk_eq, h.walk_eq]
  exact Outline.walk_append _ _ 0

/-- An entry of a walk with the message of one precondition replaced. -/
def withMessage (id : BlockId) (message : String) (e : ℕ × Block) : ℕ × Block :=
  (e.1, if e.2.id = id then { e.2 with kind := e.2.kind.withField .onFailure (.text message) }
    else e.2)

theorem walk_setMessage (hs : p.Sound) (id : BlockId) (message : String) :
    (p.setMessage id message).preconditions.walk =
      p.preconditions.walk.map (withMessage id message) := by
  have h := hs.preconditions.represents
  have hedited : (p.setMessage id message).preconditions =
      p.preconditions.edited (.update id .onFailure (.text message)) := rfl
  rw [hedited, (h.edited_update id .onFailure (.text message)).walk_eq, h.walk_eq]
  exact Outline.walk_mapBlock _ _ 0

/-! ## Readers that follow the lines -/

/-- The progress once a line of that use was read. -/
def act (p : Progress) (line : SourceLine) : Line.Use → Progress
  | .statement kind => { p with awaiting := none }.addStatement kind
  | .precondition label conditions => { p with awaiting := none }.addPrecondition label conditions
  | .message text =>
    { p with
      awaiting := none
      preconditions :=
        match p.awaiting with
        | some id => (p.setMessage id text).preconditions
        | none => p.preconditions }
  | .effect => { p with awaiting := none, inEffect := true }
  | .close => { p with awaiting := none }.closeLoop
  | .header => { p with awaiting := none }
  | .dropped => { p with awaiting := none }.skip line

/-- Whether a reader has come to what the lines it has read, the nearest first, are counted to. -/
structure Follows (mode : Mode) (start : IdSupply) (before : List Line) (p : Progress) : Prop where
  counted : p.Counted start
  sound : p.Sound
  spine : p.statements.outline.Spine p.loops
  next : p.ids.next = start.next + Line.blockCount mode before
  depth : p.loops.length = Line.loopDepth mode before
  opened : p.acceptsStatements mode = Line.opened mode before
  awaiting : p.awaiting = Line.awaited mode start.next before

/-- **A step** does what its line comes to. -/
theorem Follows.step_eq (h : p.Follows mode start before) (line : SourceLine) :
    p.step mode line = p.act line ((Line.read line.text).use mode before) := by
  have hopened : Progress.acceptsStatements { p with awaiting := none } mode =
    Line.opened mode before := h.opened
  unfold Progress.step
  generalize Line.read line.text = said
  cases said with
  | statement kind =>
    cases mode <;>
    · dsimp only
      rw [hopened, Line.use]
      split <;> rfl
  | failure message =>
    cases mode with
    | rule => rfl
    | action =>
      have hw := h.awaiting
      rw [Line.use, Line.isAfterPrecondition_eq before start.next, ← hw]
      rcases hp : p.awaiting with _ | id
      · rfl
      · rw [if_pos ⟨rfl, rfl⟩, act, hp]
        rfl
  | _ => cases mode <;> rfl

section Act

variable (p : Progress) (line : SourceLine) (u : Line.Use)

theorem next_act : (p.act line u).ids.next = p.ids.next + u.blocks := by
  cases u <;> rfl

theorem length_loops_act : (p.act line u).loops.length = u.depthAfter p.loops.length := by
  cases u with
  | statement kind =>
    rw [Line.Use.depthAfter]
    show (if kind.isContainer then p.ids.fresh :: p.loops else p.loops).length = _
    split <;> rfl
  | close => exact List.length_tail
  | _ => rfl

theorem awaiting_act : (p.act line u).awaiting = u.awaits p.ids.fresh := by
  cases u <;> rfl

theorem acceptsStatements_act (mode : Mode) : (p.act line u).acceptsStatements mode =
    (p.acceptsStatements mode || decide (u = .effect)) := by
  cases u with
  | effect => simp [acceptsStatements, act]
  | _ => exact (Bool.or_false _).symm

end Act

theorem spine_act (hr : p.Ready) (hs : p.Sound) {u : Line.Use}
    (htag : ∀ kind, u = .statement kind → kind.tag ≠ .precondition)
    (h : p.statements.outline.Spine p.loops) (line : SourceLine) :
    (p.act line u).statements.outline.Spine (p.act line u).loops := by
  cases u with
  | statement kind =>
    have hpush := h.push hs.statements.represents.nodup ⟨p.ids.fresh, kind⟩
    rw [← (represents_addStatement hr hs (htag kind rfl)).outline_eq] at hpush
    by_cases hc : kind.isContainer = true
    · have hloops : (p.addStatement kind).loops = p.ids.fresh :: p.loops := if_pos hc
      rw [← hloops] at hpush
      exact hpush
    · have hloops : (p.addStatement kind).loops = p.loops := if_neg hc
      have htail := hpush.tail
      rw [List.tail_cons, ← hloops] at htail
      exact htail
  | close => exact h.tail
  | _ => exact h

/-- **A line** leaves a reader where the lines are counted to. -/
theorem Follows.step (h : p.Follows mode start before) (line : SourceLine) :
    (p.step mode line).Follows mode start (Line.read line.text :: before) := by
  have hcounted := h.counted.step mode line
  have hsound := h.sound.step mode line
  have htag : ∀ kind, (Line.read line.text).use mode before = .statement kind →
      kind.tag ≠ .precondition := fun _ => Line.tag_of_use_eq_statement (Line.admissible_read _)
  have hfresh : p.ids.fresh = ⟨start.next + Line.blockCount mode before⟩ :=
    congrArg BlockId.mk h.next
  rw [h.step_eq] at hcounted hsound ⊢
  refine ⟨hcounted, hsound, spine_act h.counted.ready h.sound htag h.spine line, ?_, ?_, ?_, ?_⟩
  · rw [next_act, h.next, Line.blockCount, Nat.add_assoc]
  · rw [length_loops_act, h.depth, Line.loopDepth]
  · rw [acceptsStatements_act, h.opened, Line.opened_cons]
  · rw [awaiting_act, hfresh, Line.awaited]

theorem follows_initial (mode : Mode) (ids : IdSupply) : Follows mode ids [] { ids } where
  counted := counted_initial ids
  sound := sound_initial ids
  spine := .top _
  next := rfl
  depth := rfl
  opened := by cases mode <;> rfl
  awaiting := rfl

/-- **A reader** follows all lines that it reads. -/
theorem Follows.foldl (h : p.Follows mode start before) (lines : List SourceLine) :
    (lines.foldl (Progress.step mode) p).Follows mode start
      ((lines.map (Line.read ·.text)).reverse ++ before) := by
  induction lines generalizing p before with
  | nil => exact h
  | cons line lines ih =>
    rw [List.map_cons, List.reverse_cons, List.append_assoc, List.singleton_append]
    exact ih (h.step line)

end Script.Progress

end Blockscript
