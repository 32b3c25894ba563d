import Blockscript.Proofs.Session.Editors

/-!
# Text lines kept up to date

The arguments of a call are in the document, the text line that shows them is in the editor of the
call, and operations write one or both. `CallEditor.UpToDate` says that the line shows the arguments
as they are written, or is what was typed last and reads as them. Every operation keeps this
(`UpToDateAt.perform`), so that no line is ever out of date (`textLine_upToDate`).
-/

namespace Blockscript

/-! ## One editor -/

namespace CallEditor

/-- Whether the text line of an editor, if it has one, shows the arguments, or is what was typed
last and lists them. -/
def UpToDate (e : CallEditor) (typed : Option String) (args : List CallArg) : Prop :=
  ∀ raw, e.editor = .freeText raw →
    raw = Arguments.display args ∨ typed = some raw ∧ Arguments.read raw.toList = args

variable {e : CallEditor} {typed : Option String} {args : List CallArg}

theorem upToDate_of_ofArgs (h : e.editor = .ofArgs args) : e.UpToDate typed args := by
  intro raw hraw
  rw [h] at hraw
  cases hraw
  exact .inl rfl

/-- A form has no text line. -/
theorem upToDate_of_structured {fields : List InputField} (h : e.editor = .structured fields) :
    e.UpToDate typed args := by
  intro raw hraw
  rw [h] at hraw
  cases hraw

theorem UpToDate.receive (h : e.UpToDate typed args)
    (answer : Except SchemaError (List InputField)) :
    (e.receive answer args).UpToDate typed args := by
  cases answer with
  | error err => exact upToDate_of_ofArgs rfl
  | ok fields =>
    intro raw hraw
    rw [CallEditor.receive] at hraw
    dsimp only at hraw
    split at hraw
    · exact h raw hraw
    · cases hraw

theorem upToDate_setManual (e : CallEditor) (manual : Bool) :
    (e.setManual manual args).UpToDate typed args := by
  obtain ⟨selection, editor, status, was, schema⟩ := e
  cases schema with
  | none => exact upToDate_of_ofArgs rfl
  | some fields =>
    cases manual with
    | true => exact upToDate_of_ofArgs rfl
    | false => exact upToDate_of_structured rfl

theorem upToDate_refresh (e : CallEditor) : (e.refresh args).UpToDate typed args := by
  unfold CallEditor.refresh
  split
  · rename_i fields he
    exact upToDate_of_structured he
  · exact upToDate_of_ofArgs rfl

end CallEditor

namespace Session

variable {s : Session} {id other : BlockId} {typed : Option String}

/-! ## The invariant -/

/-- What an operation types into the text line of a block. -/
def Op.typed? (id : BlockId) : Op → Option String
  | .editFreeText id' raw => if id' = id then some raw else none
  | _ => none

/-- What was typed last into the text line of a block. -/
def lastTyped (id : BlockId) (ops : List Op) : Option String :=
  (ops.filterMap (·.typed? id)).getLast?

theorem lastTyped_append_singleton (id : BlockId) (ops : List Op) (e : Op) :
    lastTyped id (ops ++ [e]) = (e.typed? id).or (lastTyped id ops) := by
  unfold lastTyped
  rw [List.filterMap_append, List.getLast?_append]
  congr 1
  rcases h : e.typed? id with _ | raw
  · rw [List.filterMap_cons_none h]
    rfl
  · rw [List.filterMap_cons_some h]
    rfl

/-- Whether a block with an editor is a call among the statements whose arguments its text line
shows or lists. -/
def UpToDateAt (s : Session) (id : BlockId) (typed : Option String) : Prop :=
  s.EditorAt id fun e c => e.UpToDate typed c.args

/-! ## Operations keep the lines up to date -/

namespace UpToDateAt

/-- What is typed into the line of a block lists the arguments that it gives the call. -/
theorem editFreeText (h : s.UpToDateAt other typed) (id : BlockId) (raw : String) :
    (s.editFreeText id raw).2.UpToDateAt other
      (((Op.editFreeText id raw).typed? other).or typed) := by
  rcases hc : s.call? id with _ | c
  · have hs : s.editFreeText id raw = (false, s) := by rw [Session.editFreeText, hc]
    rw [hs]
    by_cases hid : other = id
    · exact .of_editor?_eq_none (h.editor?_eq_none (hid ▸ hc))
    · rwa [Op.typed?, if_neg (Ne.symm hid), Option.none_or]
  · refine EditorAt.editFreeText (fun hid => ?_) hc ?_
    · rwa [Op.typed?, if_neg (Ne.symm hid), Option.none_or]
    · rintro rfl shown hshown
      cases hshown
      exact .inr ⟨by rw [Op.typed?, if_pos rfl, Option.some_or], rfl⟩

/-- **An operation** keeps the lines up to date. -/
theorem perform (h : s.UpToDateAt id typed) (e : Op) :
    (s.perform e).UpToDateAt id ((e.typed? id).or typed) := by
  cases e with
  | add place kind => exact h.add place kind
  | update id' field value =>
    exact h.update id' field value (fun _ _ _ => CallEditor.upToDate_of_ofArgs rfl)
      fun _ e _ _ => e.upToDate_refresh
  | remove id' => exact h.remove id'
  | reorder active goal => exact h.reorder active goal
  | setHeader header => exact h.setHeader header
  | openText text => exact .of_editor?_eq_none rfl
  | setSource text => exact h.of_statements_eq rfl rfl
  | resync => exact .of_editor?_eq_none rfl
  | select id' product method =>
    exact h.select id' product method fun _ _ _ _ => CallEditor.upToDate_of_ofArgs rfl
  | deliver ticket answer => exact h.deliver ticket answer fun _ _ _ hline => hline.receive answer
  | editArgument id' name value =>
    exact h.editArgument id' name value fun _ _ _ _ _ hform _ =>
      CallEditor.upToDate_of_structured hform
  | editFreeText id' raw => exact h.editFreeText id' raw
  | setManual id' manual =>
    exact h.setManual id' manual fun _ _ _ => CallEditor.upToDate_setManual _ manual
  | listen => exact h.of_statements_eq rfl rfl

end UpToDateAt

theorem upToDateAt_performAll (start : Start) (ops : List Op) (id : BlockId) :
    (start.session.performAll ops).UpToDateAt id (lastTyped id ops) := by
  -- From the end, because what was typed last is told by the last operation first.
  induction ops using List.reverseRecOn with
  | nil => exact .of_editor?_eq_none (editor?_start start id)
  | append_singleton ops e ih =>
    rw [performAll_append, lastTyped_append_singleton]
    exact ih.perform e

/-- **Text lines are up to date.** Whatever was done to a session, the text line of an editor shows
the arguments of its call as they are written, or is what was typed last into the line of that call
and reads as just these arguments. -/
theorem textLine_upToDate (start : Start) (ops : List Op) {id : BlockId} {e : CallEditor}
    {raw : String} (h : (start.session.performAll ops).calls.editor? id = some e)
    (hraw : e.editor = .freeText raw) :
    ∃ c, (start.session.performAll ops).statements.get? id = some ⟨id, .call c⟩ ∧
      (raw = Arguments.display c.args ∨
        lastTyped id ops = some raw ∧ Arguments.read raw.toList = c.args) := by
  obtain ⟨c, hc, hline⟩ := upToDateAt_performAll start ops id e h
  exact ⟨c, get?_of_call? hc, hline raw hraw⟩

/-- Two calls; the line of one was typed last, the arguments of the other replaced after its line
was typed. -/
def typedLines : List Op :=
  [.add .top (.call ⟨"p", "m", []⟩), .add .top (.call ⟨"p", "n", []⟩),
    .editFreeText ⟨1⟩ "x:1", .editFreeText ⟨0⟩ "a:1 ,b : 2",
    .update ⟨1⟩ .args (.args [⟨"c", "3"⟩])]

theorem textLine_upToDate_typedLines :
    let s := (Session.new .rule { name := "R" }).performAll typedLines
    (∃ c, s.statements.get? ⟨0⟩ = some ⟨⟨0⟩, .call c⟩ ∧
      ("a:1 ,b : 2" = Arguments.display c.args ∨ lastTyped ⟨0⟩ typedLines = some "a:1 ,b : 2" ∧
        Arguments.read "a:1 ,b : 2".toList = c.args)) ∧
    ∃ c, s.statements.get? ⟨1⟩ = some ⟨⟨1⟩, .call c⟩ ∧
      ("c: 3" = Arguments.display c.args ∨ lastTyped ⟨1⟩ typedLines = some "c: 3" ∧
        Arguments.read "c: 3".toList = c.args) := by
  intro s
  have htyped : s.calls.editor? ⟨0⟩ =
      some ⟨none, .freeText "a:1 ,b : 2", .idle, false, none⟩ := by
    decide +kernel
  have hreplaced : s.calls.editor? ⟨1⟩ = some ⟨none, .freeText "c: 3", .idle, false, none⟩ := by
    decide +kernel
  exact ⟨textLine_upToDate (.opened (.new .rule { name := "R" })) typedLines htyped rfl,
    textLine_upToDate (.opened (.new .rule { name := "R" })) typedLines hreplaced rfl⟩

end Session

end Blockscript
