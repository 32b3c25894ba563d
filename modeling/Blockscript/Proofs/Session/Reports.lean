import Blockscript.Proofs.Forest.Same
import Blockscript.Proofs.Session.Calls

/-!
# Reports of changes

An operation that edits blocks says whether it changed any. `Reported` is what that answer means: a
yes goes with other blocks, a dirty session, the text written anew and told once to every listener,
and a no with a session in which nothing but the supply of identifiers and the call editors may
differ. Every answer is exact in this sense (`reported_of_report?`); selecting a target tells the
listeners once if it changes the call (`heard_select`), and reading text tells them nothing
(`report_exact`).
-/

namespace Blockscript

theorem BlockKind.withField_call (c : Call) (field : BlockField) (value : FieldValue) :
    (BlockKind.call c).withField field value = .call (c.withField field value) := by
  cases value <;> cases field <;> rfl

namespace Session

/-! ## What an answer means -/

/-- Whether an operation says that it changed a block; none for those that say nothing about it. -/
def report? (s : Session) : Op → Option Bool
  | .add place kind => some (s.add place kind).1.isSome
  | .update id field value => some (s.update id field value).1
  | .remove id => some (s.remove id).1
  | .reorder active goal => some (s.reorder active goal).1
  | .editArgument id name value => some (s.editArgument id name value).1
  | .editFreeText id raw => some (s.editFreeText id raw).1
  | _ => none

/-- Whether two sessions have the same blocks at the same places in the same orders. -/
def SameBlocks (s t : Session) : Prop :=
  s.statements.Same t.statements ∧ s.preconditions.Same t.preconditions

/-- Whether nothing but the supply of identifiers and the call editors differs. -/
structure Untouched (s t : Session) : Prop where
  statements_eq : t.statements = s.statements
  preconditions_eq : t.preconditions = s.preconditions
  mode_eq : t.mode = s.mode
  header_eq : t.header = s.header
  status_eq : t.status = s.status
  text_eq : t.text = s.text
  source_eq : t.source = s.source
  skipped_eq : t.skipped = s.skipped
  /-- No listener has heard anything. -/
  heard_eq : t.heard = s.heard

/-- Whether the text was written anew and told to every listener. -/
structure Told (s t : Session) : Prop where
  status_eq : t.status = .dirty
  text_eq : t.text = Script.write s.mode s.header t.statements t.preconditions
  /-- Every listener has heard that text, once. -/
  heard_eq : t.heard = s.heard.map (· ++ [t.text])

/-- Whether the answer to "has any block changed?" is right, and goes with what it should. -/
structure Reported (s t : Session) (changed : Bool) : Prop where
  changed_iff : changed = true ↔ ¬ s.SameBlocks t
  untouched : changed = false → s.Untouched t
  told : changed = true → s.Told t

variable {s t u : Session} {id : BlockId} {c : Call}

theorem Untouched.reported (h : s.Untouched t) : s.Reported t false := by
  refine ⟨⟨nofun, fun hn => absurd ?_ hn⟩, fun _ => h, nofun⟩
  rw [SameBlocks, h.statements_eq, h.preconditions_eq]
  exact ⟨.refl _, .refl _⟩

theorem Untouched.refl (s : Session) : s.Untouched s :=
  ⟨rfl, rfl, rfl, rfl, rfl, rfl, rfl, rfl, rfl⟩

/-- Whether blocks were changed and nothing was said of it yet. -/
structure Pending (s t : Session) : Prop where
  mode_eq : t.mode = s.mode
  header_eq : t.header = s.header
  heard_eq : t.heard = s.heard
  changed : ¬ s.SameBlocks t

namespace Pending

theorem reported_commit (h : s.Pending t) : s.Reported t.commit true := by
  refine ⟨⟨fun _ => h.changed, fun _ => rfl⟩, nofun, fun _ => ⟨rfl, ?_, ?_⟩⟩
  · rw [← h.mode_eq, ← h.header_eq]
    rfl
  · rw [← h.heard_eq]
    rfl

theorem ofStatements {e : Edit} {f : Forest} (hf : s.statements.edit? e = some f)
    (hmode : t.mode = s.mode) (hheader : t.header = s.header) (hheard : t.heard = s.heard)
    (hS : t.statements = f) : s.Pending t :=
  ⟨hmode, hheader, hheard, fun hsame => Forest.not_same_of_edit? hf (hS ▸ hsame.1)⟩

theorem ofPreconditions {e : Edit} {f : Forest} (hf : s.preconditions.edit? e = some f)
    (hmode : t.mode = s.mode) (hheader : t.header = s.header) (hheard : t.heard = s.heard)
    (hP : t.preconditions = f) : s.Pending t :=
  ⟨hmode, hheader, hheard, fun hsame => Forest.not_same_of_edit? hf (hP ▸ hsame.2)⟩

theorem setField? {field : BlockField} {value : FieldValue}
    (h : s.setField? id field value = some t) : s.Pending t := by
  rcases setField?_cases h with ⟨f, hf, rfl⟩ | ⟨-, f, hf, rfl⟩
  · exact ofStatements (e := .update id field value) hf rfl rfl rfl rfl
  · exact ofPreconditions (e := .update id field value) hf rfl rfl rfl rfl

theorem withCalls (h : s.Pending t) (calls : CallEditors) : s.Pending { t with calls } :=
  ⟨h.mode_eq, h.header_eq, h.heard_eq, h.changed⟩

theorem followField (h : s.Pending t) (id : BlockId) (field : BlockField) :
    s.Pending (t.followField id field) := by
  unfold Session.followField
  split
  · exact h.withCalls _
  · exact h.withCalls _
  · exact h.withCalls _
  · exact h

end Pending

/-! ## Answers -/

theorem reported_add (s : Session) (place : Place) (kind : BlockKind) :
    s.Reported (s.add place kind).2 (s.add place kind).1.isSome := by
  rcases s.add_cases place kind with hs | ⟨-, f, hf, hs⟩ | ⟨f, hf, hs⟩ <;> rw [hs]
  · exact Untouched.reported ⟨rfl, rfl, rfl, rfl, rfl, rfl, rfl, rfl, rfl⟩
  · have hp : s.Pending { s with ids := s.ids.advance, preconditions := f } :=
      .ofPreconditions (e := .add place ⟨s.ids.fresh, kind⟩) hf rfl rfl rfl rfl
    exact hp.reported_commit
  · have hp : s.Pending { s with ids := s.ids.advance, statements := f } :=
      .ofStatements (e := .add place ⟨s.ids.fresh, kind⟩) hf rfl rfl rfl rfl
    exact hp.reported_commit

theorem reported_update (s : Session) (id : BlockId) (field : BlockField) (value : FieldValue) :
    s.Reported (s.update id field value).2 (s.update id field value).1 := by
  rcases s.update_cases id field value with hs | ⟨t, ht, hs⟩ <;> rw [hs]
  · exact (Untouched.refl s).reported
  · exact ((Pending.setField? ht).followField id field).reported_commit

theorem reported_remove (s : Session) (id : BlockId) :
    s.Reported (s.remove id).2 (s.remove id).1 := by
  rcases s.remove_cases id with ⟨-, hs⟩ | ⟨f, hf, hs⟩ | ⟨-, f, hf, hs⟩ <;> rw [hs]
  · exact (Untouched.refl s).reported
  · have hp : s.Pending { s with statements := f, calls := s.calls.retain f.contains } :=
      .ofStatements (e := .remove id) hf rfl rfl rfl rfl
    exact hp.reported_commit
  · have hp : s.Pending { s with preconditions := f } :=
      .ofPreconditions (e := .remove id) hf rfl rfl rfl rfl
    exact hp.reported_commit

theorem reported_reorder (s : Session) (active goal : BlockId) :
    s.Reported (s.reorder active goal).2 (s.reorder active goal).1 := by
  rcases s.reorder_cases active goal with hs | ⟨f, hf, hs⟩ | ⟨f, hf, hs⟩ <;> rw [hs]
  · exact (Untouched.refl s).reported
  · have hp : s.Pending { s with statements := f } :=
      .ofStatements (e := .reorder active goal) hf rfl rfl rfl rfl
    exact hp.reported_commit
  · have hp : s.Pending { s with preconditions := f } :=
      .ofPreconditions (e := .reorder active goal) hf rfl rfl rfl rfl
    exact hp.reported_commit

/-- Replacing the arguments of a call reports a change of a session that may have had other call
editors. -/
theorem reported_setArgs (s : Session) (calls : CallEditors) (id : BlockId)
    (args : List CallArg) :
    s.Reported (Session.setArgs { s with calls } id args).2
      (Session.setArgs { s with calls } id args).1 := by
  unfold Session.setArgs
  rcases ht : Session.setField? { s with calls } id .args (.args args) with _ | t
  · exact Untouched.reported ⟨rfl, rfl, rfl, rfl, rfl, rfl, rfl, rfl, rfl⟩
  · have hp := Pending.setField? ht
    exact Pending.reported_commit ⟨hp.mode_eq, hp.header_eq, hp.heard_eq, hp.changed⟩

theorem reported_editArgument (s : Session) (id : BlockId) (name value : String) :
    s.Reported (s.editArgument id name value).2 (s.editArgument id name value).1 := by
  unfold Session.editArgument
  split
  · exact (Untouched.refl s).reported
  · exact s.reported_setArgs s.calls id _

theorem reported_editFreeText (s : Session) (id : BlockId) (raw : String) :
    s.Reported (s.editFreeText id raw).2 (s.editFreeText id raw).1 := by
  unfold Session.editFreeText
  split
  · exact (Untouched.refl s).reported
  · exact s.reported_setArgs _ id _

/-- **Every answer** is exact. -/
theorem reported_of_report? {e : Op} {changed : Bool} (h : s.report? e = some changed) :
    s.Reported (s.perform e) changed := by
  cases e with
  | add place kind => exact Option.some.inj h ▸ s.reported_add place kind
  | update id field value => exact Option.some.inj h ▸ s.reported_update id field value
  | remove id => exact Option.some.inj h ▸ s.reported_remove id
  | reorder active goal => exact Option.some.inj h ▸ s.reported_reorder active goal
  | editArgument id name value => exact Option.some.inj h ▸ s.reported_editArgument id name value
  | editFreeText id raw => exact Option.some.inj h ▸ s.reported_editFreeText id raw
  | _ => cases h

/-- Only a line of text that was typed is kept by an operation that changed no block. -/
theorem calls_of_report? {e : Op} (h : s.report? e = some false)
    (he : ∀ id raw, e ≠ .editFreeText id raw) : (s.perform e).calls = s.calls := by
  cases e with
  | add place kind =>
    rw [perform]
    rcases s.add_cases place kind with hs | ⟨-, f, -, hs⟩ | ⟨f, -, hs⟩ <;> rw [hs] <;> rfl
  | update id field value =>
    rcases s.update_cases id field value with hs | ⟨t, -, hs⟩
    · rw [perform, hs]
    · rw [report?, hs] at h
      cases h
  | remove id =>
    rcases s.remove_cases id with ⟨-, hs⟩ | ⟨f, -, hs⟩ | ⟨-, f, -, hs⟩
    · rw [perform, hs]
    · rw [report?, hs] at h
      cases h
    · rw [report?, hs] at h
      cases h
  | reorder active goal =>
    rw [perform]
    rcases s.reorder_cases active goal with hs | ⟨f, -, hs⟩ | ⟨f, -, hs⟩ <;> rw [hs] <;> rfl
  | editArgument id name value =>
    rw [perform, editArgument]
    split
    · rfl
    · exact s.calls_setArgs id _
  | editFreeText id raw => exact absurd rfl (he id raw)
  | _ => cases h

/-! ## Selecting a target -/

/-- Replacing a field of a call says whether the call changed. -/
theorem fst_setField_iff (h : s.call? id = some c) (field : BlockField) (value : FieldValue) :
    (s.setField id field value).1 = true ↔ c.withField field value ≠ c := by
  obtain ⟨n, hn, hblock⟩ := Option.map_eq_some_iff.1 (get?_of_call? h)
  have hupdate : s.statements.update? id field value = none ↔ c.withField field value = c := by
    rw [Forest.update?, hn, Option.bind_some, hblock, Option.map_eq_none_iff,
      BlockKind.update?_eq_none_iff, BlockKind.withField_call, BlockKind.call.injEq]
  rw [setField, setField?, if_pos (contains_of_call? h), ne_eq, ← hupdate]
  rcases s.statements.update? id field value with _ | f <;> simp

theorem heard_setField (s : Session) (id : BlockId) (field : BlockField) (value : FieldValue) :
    (s.setField id field value).2.heard = s.heard := by
  unfold setField
  rcases h : s.setField? id field value with _ | t
  · rfl
  · exact (Pending.setField? h).heard_eq

/-- Pointing a call at a product and a method changes it if one of them is another. -/
theorem setField_target_iff (h : s.call? id = some c) (product method : String) :
    ((s.setField id .product (.text product)).1 ||
      ((s.setField id .product (.text product)).2.setField id .method (.text method)).1) = true ↔
        c.product ≠ product ∨ c.method ≠ method := by
  have h' : (s.setField id .product (.text product)).2.call? id = some { c with product } := by
    rw [call?_setField, h, Option.map_some, if_pos rfl]
    rfl
  rw [Bool.or_eq_true, fst_setField_iff h, fst_setField_iff h']
  obtain ⟨p, m, args⟩ := c
  simp [Call.withField, eq_comm]

theorem heard_retarget (h : s.call? id = some c) (product method : String) :
    (s.retarget id product method).heard =
      if c.product ≠ product ∨ c.method ≠ method then
        s.heard.map (· ++ [(s.retarget id product method).text])
      else s.heard := by
  have hheard : ((s.setField id .product (.text product)).2.setField id .method
      (.text method)).2.heard = s.heard := by
    rw [heard_setField, heard_setField]
  have hiff := setField_target_iff h product method
  unfold retarget
  dsimp only
  by_cases hne : c.product ≠ product ∨ c.method ≠ method
  · rw [if_pos hne, if_pos (hiff.2 hne), ← hheard]
    rfl
  · rw [if_neg hne, if_neg (mt hiff.1 hne), hheard]

/-- **Selecting** a target tells every listener the new text once if it changes the product or the
method, and nothing otherwise. -/
theorem heard_select (s : Session) (id : BlockId) (product method : String) :
    (s.select id product method).2.heard =
      if (s.call? id).any fun c => c.product ≠ product ∨ c.method ≠ method then
        s.heard.map (· ++ [(s.select id product method).2.text])
      else s.heard := by
  rcases hc : s.call? id with _ | c
  · rw [select_of_none hc]
    rfl
  · have hretarget := heard_retarget hc product method
    rw [select_of_some hc]
    simpa using hretarget

/-- **What operations say and what listeners hear.** Every answer of an edit is exact, and a no
leaves the call editors alone unless a line of text was typed; selecting tells every listener the
new text once if it changes the call, and nothing otherwise; reading text, answers to tickets, the
manual mode and a new source tell nobody. -/
theorem report_exact (s : Session) :
    (∀ e changed, s.report? e = some changed → s.Reported (s.perform e) changed ∧
      (changed = false → (∀ id raw, e ≠ .editFreeText id raw) → (s.perform e).calls = s.calls)) ∧
    (∀ id product method, (s.select id product method).2.heard =
      if (s.call? id).any fun c => c.product ≠ product ∨ c.method ≠ method then
        s.heard.map (· ++ [(s.select id product method).2.text])
      else s.heard) ∧
    (∀ text, (s.openText text).heard = s.heard) ∧ s.resync.heard = s.heard ∧
    (∀ ticket answer, (s.deliver ticket answer).2.heard = s.heard) ∧
    (∀ id manual, (s.setManual id manual).heard = s.heard) ∧
    ∀ text, (s.setSource text).heard = s.heard := by
  refine ⟨fun e changed h => ⟨reported_of_report? h, ?_⟩, s.heard_select, fun _ => rfl, rfl,
    fun _ _ => rfl, fun id manual => ?_, fun _ => rfl⟩
  · rintro rfl he
    exact calls_of_report? h he
  · unfold Session.setManual
    split <;> rfl

end Session

end Blockscript
