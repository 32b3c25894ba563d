import Blockscript.Proofs.Session.Editors

/-!
# Consistent editors

`CallEditor.Consistent` says that the fields of an editor agree with each other and with the call of
its block, `Session.Consistent` that every editor is that of a call among the statements and agrees
with it. Every operation keeps this (`Consistent.perform`).
-/

namespace Blockscript

/-! ## One editor -/

namespace CallEditor

/-- Whether the fields of an editor agree with each other and with the call of its block. -/
structure Consistent (e : CallEditor) (id : BlockId) (c : Call) : Prop where
  idle_iff : e.status = .idle ↔ e.selection = none
  selection : ∀ key, e.selection = some key →
    key.block = id ∧ key.product = c.product ∧ key.method = c.method
  schema_iff : e.schema.isSome ↔ e.status = .ready
  structured : ∀ fields, e.editor = .structured fields →
    e.status = .ready ∧ e.manual = false ∧ e.schema = some fields

variable {e : CallEditor} {id : BlockId} {c c' : Call}

/-- Without the inputs of the method, the arguments are a line of text. -/
theorem Consistent.exists_freeText (h : e.Consistent id c) (hs : e.status ≠ .ready) :
    ∃ raw, e.editor = .freeText raw := by
  rcases he : e.editor with fields | raw
  · exact absurd (h.structured fields he).1 hs
  · exact ⟨raw, rfl⟩

/-- An editor with a line of text agrees if its other fields do. -/
theorem Consistent.withText (h : e.Consistent id c) (raw : String) :
    ({ e with editor := .freeText raw } : CallEditor).Consistent id c :=
  ⟨h.idle_iff, h.selection, h.schema_iff, nofun⟩

theorem Consistent.withArgs (h : e.Consistent id c) (args : List CallArg) :
    ({ e with editor := .ofArgs args } : CallEditor).Consistent id c := h.withText _

/-- Nothing of an editor depends on the arguments of the call. -/
theorem Consistent.congr (h : e.Consistent id c) (hp : c'.product = c.product)
    (hm : c'.method = c.method) : e.Consistent id c' := by
  refine ⟨h.idle_iff, ?_, h.schema_iff, h.structured⟩
  rw [hp, hm]
  exact h.selection

theorem consistent_unselected (args : List CallArg) (manual : Bool) (id : BlockId) (c : Call) :
    ({ unselected args with manual } : CallEditor).Consistent id c where
  idle_iff := ⟨fun _ => rfl, fun _ => rfl⟩
  selection := nofun
  schema_iff := ⟨nofun, nofun⟩
  structured := nofun

theorem consistent_select (e : CallEditor) (key : Selection) (args : List CallArg)
    (hb : key.block = id) (hp : key.product = c.product) (hm : key.method = c.method) :
    (e.select key args).Consistent id c where
  idle_iff := ⟨nofun, nofun⟩
  selection _ hk := Option.some.inj hk ▸ ⟨hb, hp, hm⟩
  schema_iff := ⟨nofun, nofun⟩
  structured := nofun

/-- An answer keeps an editor consistent that waits for one. -/
theorem Consistent.receive (h : e.Consistent id c) (hs : e.selection ≠ none)
    (answer : Except SchemaError (List InputField)) (args : List CallArg) :
    (e.receive answer args).Consistent id c := by
  cases answer with
  | error err => exact ⟨⟨nofun, fun hn => absurd hn hs⟩, h.selection, ⟨nofun, nofun⟩, nofun⟩
  | ok fields =>
    refine ⟨⟨nofun, fun hn => absurd hn hs⟩, h.selection, ⟨fun _ => rfl, fun _ => rfl⟩, ?_⟩
    intro shown hshown
    rw [CallEditor.receive] at hshown
    dsimp only at hshown
    split at hshown
    · rename_i hmanual
      rw [(h.structured shown hshown).2.1] at hmanual
      cases hmanual
    · rename_i hmanual
      cases hshown
      exact ⟨rfl, eq_false_of_ne_true hmanual, rfl⟩

theorem Consistent.setManual (h : e.Consistent id c) (manual : Bool) (args : List CallArg) :
    (e.setManual manual args).Consistent id c := by
  refine ⟨h.idle_iff, h.selection, h.schema_iff, fun shown hshown => ?_⟩
  obtain ⟨selection, editor, status, was, schema⟩ := e
  cases schema with
  | none => cases hshown
  | some fields =>
    cases manual with
    | true => cases hshown
    | false =>
      cases hshown
      exact ⟨h.schema_iff.1 rfl, rfl, rfl⟩

theorem Consistent.refresh (h : e.Consistent id c) (args : List CallArg) :
    (e.refresh args).Consistent id c := by
  rw [CallEditor.refresh]
  split
  · exact h
  · exact h.withArgs args

end CallEditor

namespace Session

variable {s t : Session} {id : BlockId}

/-! ## All editors -/

/-- Whether a block with an editor is a call among the statements with which the editor agrees. -/
def ConsistentAt (s : Session) (id : BlockId) : Prop :=
  ∀ e, s.calls.editor? id = some e → ∃ c, s.call? id = some c ∧ e.Consistent id c

/-- Whether every editor is that of a call among the statements and agrees with it. -/
def Consistent (s : Session) : Prop := ∀ id, s.ConsistentAt id

/-- A session without editors is consistent. -/
theorem consistent_of_editor?_eq_none (h : ∀ id, s.calls.editor? id = none) : s.Consistent :=
  fun id => EditorAt.of_editor?_eq_none (h id)

/-- What touches neither statements nor editors keeps the editors consistent. -/
theorem Consistent.of_statements_eq (h : s.Consistent) (hcalls : t.calls = s.calls)
    (hS : t.statements = s.statements) : t.Consistent :=
  fun id => EditorAt.of_statements_eq (h id) hcalls hS

/-- The editor of a call agrees with it, a new one if it has none. -/
theorem Consistent.getOrNew {c : Call} (h : s.Consistent) (hc : s.call? id = some c)
    (args : List CallArg) : (s.calls.getOrNew id args).Consistent id c :=
  EditorAt.getOrNew (R := (·.Consistent id ·)) (h id) hc
    (CallEditor.consistent_unselected args false id c)

/-! ## Operations keep the editors consistent -/

theorem Consistent.update (h : s.Consistent) (id : BlockId) (field : BlockField)
    (value : FieldValue) : (s.update id field value).2.Consistent := by
  intro other
  refine EditorAt.update (h other) id field value
    (fun _ c manual => CallEditor.consistent_unselected c.args manual other c)
    fun _ e c hagree => (hagree.congr ?_ ?_).refresh _ <;> cases value <;> rfl

theorem Consistent.select (h : s.Consistent) (id : BlockId) (product method : String) :
    (s.select id product method).2.Consistent :=
  fun other => EditorAt.select (h other) id product method fun hid e c _ =>
    e.consistent_select _ c.args hid.symm rfl rfl

theorem Consistent.deliver (h : s.Consistent) (ticket : Selection)
    (answer : Except SchemaError (List InputField)) :
    (s.deliver ticket answer).2.Consistent :=
  fun id => EditorAt.deliver (h id) ticket answer fun _ c hsel hagree =>
    hagree.receive (hsel ▸ nofun) answer c.args

theorem Consistent.editArgument (h : s.Consistent) (id : BlockId) (name value : String) :
    (s.editArgument id name value).2.Consistent :=
  fun other => EditorAt.editArgument (h other) id name value fun _ _ _ _ _ _ hagree =>
    hagree.congr rfl rfl

theorem Consistent.editFreeText (h : s.Consistent) (id : BlockId) (raw : String) :
    (s.editFreeText id raw).2.Consistent := by
  rcases hc : s.call? id with _ | c
  · rwa [Session.editFreeText, hc]
  · intro other
    refine EditorAt.editFreeText (fun _ => h other) hc ?_
    rintro rfl
    exact ((h.getOrNew hc _).withText raw).congr rfl rfl

theorem Consistent.setManual (h : s.Consistent) (id : BlockId) (manual : Bool) :
    (s.setManual id manual).Consistent := by
  intro other
  refine EditorAt.setManual (h other) id manual ?_
  rintro rfl c hc
  exact (h.getOrNew hc c.args).setManual manual c.args

/-- **An operation** keeps the editors consistent. -/
theorem Consistent.perform (h : s.Consistent) (e : Op) : (s.perform e).Consistent := by
  cases e with
  | add place kind => exact fun id => EditorAt.add (h id) place kind
  | update id field value => exact h.update id field value
  | remove id => exact fun other => EditorAt.remove (h other) id
  | reorder active goal => exact fun id => EditorAt.reorder (h id) active goal
  | setHeader header => exact fun id => EditorAt.setHeader (h id) header
  | openText text => exact consistent_of_editor?_eq_none fun _ => rfl
  | setSource text => exact h.of_statements_eq rfl rfl
  | resync => exact consistent_of_editor?_eq_none fun _ => rfl
  | select id product method => exact h.select id product method
  | deliver ticket answer => exact h.deliver ticket answer
  | editArgument id name value => exact h.editArgument id name value
  | editFreeText id raw => exact h.editFreeText id raw
  | setManual id manual => exact h.setManual id manual
  | listen => exact h.of_statements_eq rfl rfl

theorem Consistent.performAll (h : s.Consistent) (ops : List Op) :
    (s.performAll ops).Consistent := by
  induction ops generalizing s with
  | nil => exact h
  | cons e ops ih => exact ih (h.perform e)

theorem consistent_start (start : Start) : start.session.Consistent :=
  consistent_of_editor?_eq_none (editor?_start start)

/-- **Every editor**, whatever was done to the session, is that of a call among the statements; its
selection names the product and the method of the call; the inputs are known exactly when they have
arrived; and only then, and outside of manual mode, it is a form, one of just these inputs. -/
theorem consistent_editor (start : Start) (ops : List Op) {id : BlockId} {e : CallEditor}
    (h : (start.session.performAll ops).calls.editor? id = some e) :
    ∃ c, (start.session.performAll ops).statements.get? id = some ⟨id, .call c⟩ ∧
      e.Consistent id c ∧ (e.status ≠ .ready → ∃ raw, e.editor = .freeText raw) := by
  obtain ⟨c, hc, hagree⟩ := (consistent_start start).performAll ops id e h
  exact ⟨c, get?_of_call? hc, hagree, hagree.exists_freeText⟩

/-- A call for which another method was selected, with the inputs of that method delivered. -/
def filledIn : List Op :=
  [.add .top (.call ⟨"p", "m", []⟩), .select ⟨0⟩ "p" "n",
    .deliver ⟨⟨0⟩, "p", "n", 1⟩ (.ok [⟨"a", "Int"⟩])]

theorem consistent_editor_filledIn :
    ∃ e c, ((Session.new .rule { name := "R" }).performAll filledIn).calls.editor? ⟨0⟩ = some e ∧
      e.editor = .structured [⟨"a", "Int"⟩] ∧
      ((Session.new .rule { name := "R" }).performAll filledIn).statements.get? ⟨0⟩ =
        some ⟨⟨0⟩, .call c⟩ ∧
      e.Consistent ⟨0⟩ c ∧ (e.status ≠ .ready → ∃ raw, e.editor = .freeText raw) := by
  have h : ((Session.new .rule { name := "R" }).performAll filledIn).calls.editor? ⟨0⟩ =
      some ⟨some ⟨⟨0⟩, "p", "n", 1⟩, .structured [⟨"a", "Int"⟩], .ready, false,
        some [⟨"a", "Int"⟩]⟩ := by
    decide +kernel
  obtain ⟨c, hget, hagree, htext⟩ :=
    consistent_editor (.opened (.new .rule { name := "R" })) filledIn h
  exact ⟨_, c, h, rfl, hget, hagree, htext⟩

end Session

end Blockscript
