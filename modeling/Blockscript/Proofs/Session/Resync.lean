import Blockscript.Proofs.Script.Renumbered
import Blockscript.Proofs.Session.Frame
import Blockscript.Proofs.Session.Sound

/-!
# What a session reads

A session that reads its blocks anew forgets all else: what it shows then depends on the last text
of the host and on nothing that was done to the blocks (`resync_determined`).

Text that the host changes on its own waits for the next reading, and the status does not tell. A
session that calls itself synced shows the text that it read last, which is the last text of the
host if none was given since; otherwise it shows the latter only if both are read as the same blocks
(`synced_showsRead`, `not_shows_changedByHost`).
-/

namespace Blockscript.Session

open Script

/-- The blocks of a session, and the lines that it skipped. -/
def script (s : Session) : Script := ⟨s.statements, s.preconditions, s.skipped⟩

variable {mode : Mode} {header : Header} {s t : Session}

theorem InStep.built (h : InStep mode header s) : s.script.Built :=
  ⟨h.statements, h.preconditions⟩

/-! ## Reading anew -/

/-- Whether two sessions show the same document, under whatever identifiers. -/
structure SameDocument (s t : Session) : Prop extends Alike s.script t.script where
  text_eq : t.header = s.header → t.text = s.text

/-- Whether reading the blocks anew after some operations leaves nothing of what was there: no call
editor, and no identifier that was in use at the start or handed out since. -/
structure ReadAnew (s : Session) (ops : List Op) : Prop where
  status_eq : (s.performAll ops).resync.status = .synced
  editor?_eq : ∀ id, (s.performAll ops).resync.calls.editor? id = none
  fresh : ∀ id ∈ (s.performAll ops).resync.blockIds, id ∉ s.blockIds ∧ id ∉ s.handedOutAll ops

/-- Sessions that read the same text in the same mode show the same document. -/
theorem sameDocument_resync (hmode : t.mode = s.mode) (hsource : t.source = s.source) :
    SameDocument s.resync t.resync := by
  have hread : t.resync.script = (parse s.mode t.ids (s.source.getD "")).1 := by
    rw [← hmode, ← hsource]
    rfl
  have halike : Alike s.resync.script t.resync.script := by
    rw [hread]
    exact alike_parse s.mode s.ids t.ids (s.source.getD "")
  have hs : s.resync.script.Built := .parse s.mode s.ids (s.source.getD "")
  have ht : t.resync.script.Built := .parse t.mode t.ids (t.source.getD "")
  refine ⟨halike, fun hheader => ?_⟩
  have hheader : t.header = s.header := hheader
  have hwrite := write_eq_of_blocksAlike halike.toBlocksAlike hs ht s.mode s.header
  calc t.resync.text
      = write t.mode t.header t.resync.statements t.resync.preconditions := rfl
    _ = write s.mode s.header t.resync.statements t.resync.preconditions := by rw [hmode, hheader]
    _ = s.resync.text := hwrite

/-- At its start, a session uses only identifiers that come before those that it will hand out. -/
theorem val_lt_start (start : Start) :
    ∀ id ∈ start.session.blockIds, id.val < start.session.ids.next := by
  cases start with
  | opened opening => exact (numbered_opening opening).lt
  | restored n => exact val_lt_restore n

theorem readAnew_resync (start : Start) (ops : List Op) : ReadAnew start.session ops := by
  refine ⟨rfl, fun _ => rfl, fun id hid => ?_⟩
  have hread : id ∈ (start.session.performAll ops).ids.drawn
      (start.session.performAll ops).resync.ids :=
    (perm_ids_parse _ _ _).subset hid
  have hle := (IdSupply.mem_drawn_iff.1 hread).1
  constructor
  · intro huse
    have hlt := val_lt_start start id huse
    have hmono := start.session.next_le_performAll ops
    omega
  · intro hout
    have hlt := (IdSupply.mem_drawn_iff.1 ((start.session.perm_handedOutAll ops).subset hout)).2
    omega

/-- **Reading anew** depends on the last text of the host alone. However a session came about, any
two courses of operations that leave this text as it is end, once the blocks are read anew, with the
same document; the status is then synced, there are no call editors, and all identifiers are new. -/
theorem resync_determined (start : Start) (before ops ops' : List Op)
    (h : ∀ e ∈ ops, e.keepsSource = true) (h' : ∀ e ∈ ops', e.keepsSource = true) :
    SameDocument (start.session.performAll (before ++ ops)).resync
        (start.session.performAll (before ++ ops')).resync ∧
      ReadAnew start.session (before ++ ops) ∧ ReadAnew start.session (before ++ ops') := by
  refine ⟨?_, readAnew_resync start _, readAnew_resync start _⟩
  rw [performAll_append, performAll_append]
  apply sameDocument_resync
  · exact (mode_performAll _ ops').trans (mode_performAll _ ops).symm
  · rw [source_performAll _ h, source_performAll _ h']

/-- A rule with two statements, one of them a call. -/
def twoStatements : Opening := .build .rule { name := "R" } 1 (some "CALL p.m(x: 1);\nSET a.b = 1;")

/-- Edits of these statements, a selection and another text line among them. -/
def editedOver : List Op :=
  [.remove ⟨1⟩, .select ⟨0⟩ "p" "n", .add .top (.set "a.c" "2"), .resync, .editFreeText ⟨3⟩ "x: 2"]

theorem resync_determined_editedOver :
    SameDocument ((Start.opened twoStatements).session.performAll ([] ++ editedOver)).resync
        ((Start.opened twoStatements).session.performAll ([] ++ [])).resync ∧
      ReadAnew (Start.opened twoStatements).session ([] ++ editedOver) ∧
      ReadAnew (Start.opened twoStatements).session ([] ++ []) :=
  resync_determined (.opened twoStatements) [] editedOver [] (by decide) (by decide)

/-! ## The text shown -/

/-- Whether the blocks of a session are those of a text. -/
def Shows (s : Session) (text : String) : Prop :=
  ∀ ids, BlocksAlike s.script (parse s.mode ids text).1

/-- The text that an operation reads. -/
def readBy? (s : Session) : Op → Option String
  | .openText text => some text
  | .resync => some (s.source.getD "")
  | _ => none

/-- Whether the last text read by operations is that one, with the operations `since` after it. -/
def LastRead (s : Session) (ops : List Op) (text : String) (since : List Op) : Prop :=
  ∃ before e, ops = before ++ e :: since ∧ (s.performAll before).readBy? e = some text ∧
    ∀ later ∈ since, later.reads = false

/-- Whether a session shows the text that was last read, which is the last one of the host unless
that gave another one since. -/
structure ShowsRead (s : Session) (ops : List Op) (text : String) (since : List Op) : Prop where
  lastRead : s.LastRead ops text since
  shows : (s.performAll ops).Shows text
  source_eq : (∀ e ∈ since, e.keepsSource = true) → (s.performAll ops).source.getD "" = text

/-- An operation that reads a text shows it, and it is the last text of the host. -/
theorem exists_readBy? (s : Session) {e : Op} (he : e.reads = true) :
    ∃ text, s.readBy? e = some text ∧ (s.perform e).Shows text ∧
      (s.perform e).source.getD "" = text := by
  cases e with
  | openText text =>
    exact ⟨text, rfl, fun ids => (alike_parse s.mode s.ids ids text).toBlocksAlike, rfl⟩
  | resync =>
    exact ⟨_, rfl, fun ids => (alike_parse s.mode s.ids ids (s.source.getD "")).toBlocksAlike, rfl⟩
  | _ => cases he

/-- What a session shows stays while it is synced and reads nothing. -/
theorem Shows.perform {text : String} (h : s.Shows text) {e : Op} (he : e.reads = false)
    (hsynced : (s.perform e).status = .synced) : (s.perform e).Shows text := by
  rcases s.blocks_perform he with hdirty | ⟨hS, hP, -⟩
  · cases hdirty.symm.trans hsynced
  · intro ids
    have hs := h ids
    rw [mode_perform]
    refine ⟨?_, ?_⟩
    · show (s.perform e).statements.sameStructure _ = true
      rw [hS]
      exact hs.statements
    · show (s.perform e).preconditions.sameStructure _ = true
      rw [hP]
      exact hs.preconditions

/-- Where one text is shown, another one is shown exactly if both are read alike. -/
theorem InStep.shows_iff (h : InStep mode header s) {text : String} (hs : s.Shows text)
    (other : String) : s.Shows other ↔ ∀ ids ids',
      BlocksAlike (parse mode ids text).1 (parse mode ids' other).1 := by
  have hparse : ∀ ids text, (parse s.mode ids text).1.Built := Built.parse s.mode
  rw [← h.mode_eq]
  constructor
  · intro hs' ids ids'
    exact ((hs ids).congr_left h.built (hparse ids text) (hparse ids' other)).1 (hs' ids')
  · intro halike ids
    exact ((hs ids).congr_left h.built (hparse ids text) (hparse ids other)).2 (halike ids ids)

/-- A session that started without a text and is synced shows the text that was read last. -/
theorem exists_showsRead (hstart : s.status = .uninitialized) (ops : List Op)
    (hsynced : (s.performAll ops).status = .synced) : ∃ text since, s.ShowsRead ops text since := by
  induction ops using List.reverseRecOn with
  | nil => cases hstart.symm.trans hsynced
  | append_singleton ops e ih =>
    have hrun : s.performAll (ops ++ [e]) = (s.performAll ops).perform e := performAll_append ..
    rw [hrun] at hsynced
    by_cases he : e.reads = true
    · obtain ⟨text, hread, hshows, hsource⟩ := exists_readBy? (s.performAll ops) he
      exact ⟨text, [], ⟨ops, e, rfl, hread, nofun⟩, hrun ▸ hshows, fun _ => hrun ▸ hsource⟩
    -- The operation left the blocks alone, since otherwise the session would be dirty.
    · have he := eq_false_of_ne_true he
      have hbefore : (s.performAll ops).status = .synced := by
        rcases blocks_perform _ he with hdirty | ⟨-, -, hsame⟩
        · cases hdirty.symm.trans hsynced
        · exact hsame.symm.trans hsynced
      obtain ⟨text, since, ⟨before, last, hops, hread, hsince⟩, hshows, hsource⟩ := ih hbefore
      refine ⟨text, since ++ [e], ⟨before, last, ?_, hread, ?_⟩, ?_, fun hkeeps => ?_⟩
      · rw [hops, List.append_assoc, List.cons_append]
      · exact List.forall_mem_append.2 ⟨hsince, List.forall_mem_singleton.2 he⟩
      · rw [hrun]
        exact hshows.perform he hsynced
      · obtain ⟨hkeeps, hlast⟩ := List.forall_mem_append.1 hkeeps
        rw [hrun, source_perform _ (hlast e List.mem_cons_self)]
        exact hsource hkeeps

/-- **A synced session** shows the text that was read last. This is the last text of the host unless
that gave another one since; any other text, the last one of the host included, is shown exactly if
it is read as the same blocks. -/
theorem synced_showsRead (mode : Mode) (header : Header) (ops : List Op)
    (hsynced : ((Session.new mode header).performAll ops).status = .synced) :
    ∃ text since, (Session.new mode header).ShowsRead ops text since ∧
      ∀ other, ((Session.new mode header).performAll ops).Shows other ↔
        ∀ ids ids', BlocksAlike (parse mode ids text).1 (parse mode ids' other).1 := by
  obtain ⟨text, since, hread⟩ := exists_showsRead (s := .new mode header) rfl ops hsynced
  have hstep := (inStep_new mode header).performAll ops
  exact ⟨text, since, hread, hstep.shows_iff hread.shows⟩

/-- A text that was read, and another one that the host gives after it. -/
def changedByHost : List Op := [.openText "SET a.b = 1;", .setSource "SET a.b = 2;"]

theorem not_shows_changedByHost :
    ((Session.new .rule { name := "R" }).performAll changedByHost).status = .synced ∧
      ((Session.new .rule { name := "R" }).performAll changedByHost).source =
        some "SET a.b = 2;" ∧
      ¬ ((Session.new .rule { name := "R" }).performAll changedByHost).statements.sameStructure
        (parse .rule .initial "SET a.b = 2;").1.statements = true := by
  decide +kernel

theorem synced_showsRead_changedByHost :
    ∃ text since, (Session.new .rule { name := "R" }).ShowsRead changedByHost text since ∧
      ∀ other, ((Session.new .rule { name := "R" }).performAll changedByHost).Shows other ↔
        ∀ ids ids', BlocksAlike (parse .rule ids text).1 (parse .rule ids' other).1 :=
  synced_showsRead .rule { name := "R" } changedByHost (by decide +kernel)

end Blockscript.Session
