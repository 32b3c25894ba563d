import Blockscript.Session.Basic

/-!
# Outcomes of operations

What each operation of a session comes to: one lemma for each, with a case for each way it can end
and the session that it leaves. The operations on calls replace fields of a block on their own:
selecting does so by `retarget`, and setting the arguments by `setArgs_cases`.
-/

namespace Blockscript.Session

variable {s t : Session} {id : BlockId} {c : Call}

/-! ## Edits of the blocks -/

theorem add_cases (s : Session) (place : Place) (kind : BlockKind) :
    s.add place kind = (none, { s with ids := s.ids.advance }) ∨
      (s.mode = .action ∧ ∃ f, s.preconditions.add? place ⟨s.ids.fresh, kind⟩ = some f ∧
        s.add place kind = (some s.ids.fresh,
          { s with ids := s.ids.advance, preconditions := f }.commit)) ∨
      ∃ f, s.statements.add? place ⟨s.ids.fresh, kind⟩ = some f ∧
        s.add place kind = (some s.ids.fresh,
          { s with ids := s.ids.advance, statements := f }.commit) := by
  unfold add insert?
  dsimp only
  by_cases htag : Block.tag ⟨s.ids.fresh, kind⟩ = .precondition
  · rw [if_pos htag]
    by_cases hmode : s.mode = .action
    · rw [if_pos hmode]
      rcases hf : s.preconditions.add? place ⟨s.ids.fresh, kind⟩ with _ | f
      · exact .inl rfl
      · exact .inr (.inl ⟨hmode, f, rfl, rfl⟩)
    · rw [if_neg hmode]
      exact .inl rfl
  · rw [if_neg htag]
    rcases hf : s.statements.add? place ⟨s.ids.fresh, kind⟩ with _ | f
    · exact .inl rfl
    · exact .inr (.inr ⟨f, rfl, rfl⟩)

theorem setField?_cases {id : BlockId} {field : BlockField} {value : FieldValue} {t : Session}
    (h : s.setField? id field value = some t) :
    (∃ f, s.statements.update? id field value = some f ∧ t = { s with statements := f }) ∨
      s.statements.contains id = false ∧ ∃ f,
        s.preconditions.update? id field value = some f ∧ t = { s with preconditions := f } := by
  unfold Session.setField? at h
  split at h
  · obtain ⟨f, hf, rfl⟩ := Option.map_eq_some_iff.1 h
    exact .inl ⟨f, hf, rfl⟩
  · rename_i hc
    obtain ⟨f, hf, rfl⟩ := Option.map_eq_some_iff.1 h
    exact .inr ⟨eq_false_of_ne_true hc, f, hf, rfl⟩

theorem setField_of_some {field : BlockField} {value : FieldValue}
    (h : s.setField? id field value = some t) : s.setField id field value = (true, t) := by
  rw [setField, h]

theorem calls_setField? {field : BlockField} {value : FieldValue}
    (h : s.setField? id field value = some t) : t.calls = s.calls := by
  rcases setField?_cases h with ⟨f, -, rfl⟩ | ⟨-, f, -, rfl⟩ <;> rfl

theorem update_cases (s : Session) (id : BlockId) (field : BlockField) (value : FieldValue) :
    s.update id field value = (false, s) ∨ ∃ t, s.setField? id field value = some t ∧
      s.update id field value = (true, (t.followField id field).commit) := by
  rw [update]
  rcases h : s.setField? id field value with _ | t
  · exact .inl rfl
  · exact .inr ⟨t, rfl, rfl⟩

/-- Only another product or method of a call drops its selection. -/
theorem followField_cases (s : Session) (id : BlockId) (field : BlockField) :
    ((s.call? id = none ∨ field ≠ .product ∧ field ≠ .method) ∧ s.followField id field = s) ∨
      (∃ c, s.call? id = some c ∧ (field = .product ∨ field = .method) ∧
        s.followField id field = { s with calls := s.calls.invalidate id c.args }) ∨
      ∃ c e, s.call? id = some c ∧ s.calls.editor? id = some e ∧ field = .args ∧
        s.followField id field = { s with calls := s.calls.put id (e.refresh c.args) } := by
  unfold followField
  rcases hc : s.call? id with _ | c
  · exact .inl ⟨.inl rfl, rfl⟩
  · cases field with
    | product => exact .inr (.inl ⟨c, rfl, .inl rfl, rfl⟩)
    | method => exact .inr (.inl ⟨c, rfl, .inr rfl, rfl⟩)
    | args =>
      unfold CallEditors.refresh
      rcases he : s.calls.editor? id with _ | e
      · exact .inl ⟨.inr ⟨nofun, nofun⟩, rfl⟩
      · exact .inr (.inr ⟨c, e, rfl, rfl, rfl, rfl⟩)
    | _ => exact .inl ⟨.inr ⟨nofun, nofun⟩, rfl⟩

theorem remove_cases (s : Session) (id : BlockId) :
    (s.statements.remove? id = none ∧ s.remove id = (false, s)) ∨
      (∃ f, s.statements.remove? id = some f ∧ s.remove id =
        (true, { s with statements := f, calls := s.calls.retain f.contains }.commit)) ∨
      s.statements.remove? id = none ∧ ∃ f, s.preconditions.remove? id = some f ∧
        s.remove id = (true, { s with preconditions := f }.commit) := by
  rw [remove]
  rcases hS : s.statements.remove? id with _ | f
  · rcases hP : s.preconditions.remove? id with _ | f
    · exact .inl ⟨rfl, rfl⟩
    · exact .inr (.inr ⟨rfl, f, rfl, rfl⟩)
  · exact .inr (.inl ⟨f, rfl, rfl⟩)

theorem reorder_cases (s : Session) (active goal : BlockId) :
    s.reorder active goal = (false, s) ∨
      (∃ f, s.statements.reorder? active goal = some f ∧
        s.reorder active goal = (true, { s with statements := f }.commit)) ∨
      ∃ f, s.preconditions.reorder? active goal = some f ∧
        s.reorder active goal = (true, { s with preconditions := f }.commit) := by
  rw [reorder]
  rcases hS : s.statements.reorder? active goal with _ | f
  · rcases hP : s.preconditions.reorder? active goal with _ | f
    · exact .inl rfl
    · exact .inr (.inr ⟨f, rfl, rfl⟩)
  · exact .inr (.inl ⟨f, rfl, rfl⟩)

/-! ## Calls -/

theorem setArgs_cases (s : Session) (id : BlockId) (args : List CallArg) :
    (s.setArgs id args).2 = s ∨
      ∃ t, s.setField? id .args (.args args) = some t ∧ (s.setArgs id args).2 = t.commit := by
  rw [setArgs]
  rcases h : s.setField? id .args (.args args) with _ | t
  · exact .inl rfl
  · exact .inr ⟨t, rfl, rfl⟩

theorem calls_setArgs (s : Session) (id : BlockId) (args : List CallArg) :
    (s.setArgs id args).2.calls = s.calls := by
  rcases s.setArgs_cases id args with hs | ⟨t, ht, hs⟩ <;> rw [hs]
  show t.calls = s.calls
  exact calls_setField? ht

/-- The session with another product and method of a call, as selecting them leaves the document. -/
def retarget (s : Session) (id : BlockId) (product method : String) : Session :=
  let byProduct := s.setField id .product (.text product)
  let byMethod := byProduct.2.setField id .method (.text method)
  if byProduct.1 || byMethod.1 then byMethod.2.commit else byMethod.2

theorem select_of_none {id : BlockId} (h : s.call? id = none) (product method : String) :
    s.select id product method = (none, s) := by
  rw [select, h]

theorem select_of_some {id : BlockId} {c : Call} (h : s.call? id = some c)
    (product method : String) : s.select id product method =
      (some ((s.retarget id product method).calls.select id product method
          ((s.retarget id product method).argsOf id)).1,
        { s.retarget id product method with
          calls := ((s.retarget id product method).calls.select id product method
            ((s.retarget id product method).argsOf id)).2 }) := by
  rw [select, h]
  rfl

/-- What holds of a session and is kept by replacing fields of a block holds of the session that
`retarget` commits, if it changes anything. -/
theorem retarget_cases {Q : Session → Prop} {id : BlockId} (h : Q s)
    (hset : ∀ {t t' : Session} {field : BlockField} {value : FieldValue}, Q t →
      t.setField? id field value = some t' → Q t') (product method : String) :
    s.retarget id product method = s ∨ ∃ t, Q t ∧ s.retarget id product method = t.commit := by
  rw [retarget, setField]
  -- The method is replaced in what replacing the product left.
  rcases hp : s.setField? id .product (.text product) with _ | t
  · dsimp only
    rw [setField]
    rcases hm : s.setField? id .method (.text method) with _ | t'
    · exact .inl rfl
    · exact .inr ⟨t', hset h hm, rfl⟩
  · dsimp only
    rw [setField]
    rcases hm : t.setField? id .method (.text method) with _ | t'
    · exact .inr ⟨t, hset h hp, rfl⟩
    · exact .inr ⟨t', hset (hset h hp) hm, rfl⟩

theorem calls_retarget (s : Session) (id : BlockId) (product method : String) :
    (s.retarget id product method).calls = s.calls := by
  have hset : ∀ {t t' : Session} {field : BlockField} {value : FieldValue}, t.calls = s.calls →
      t.setField? id field value = some t' → t'.calls = s.calls :=
    fun ht ht' => (calls_setField? ht').trans ht
  rcases retarget_cases (Q := fun t => t.calls = s.calls) rfl hset product method with
    hs | ⟨t, ht, hs⟩
  · rw [hs]
  · rw [hs]
    exact ht

theorem deliver_cases (s : Session) (ticket : Selection)
    (answer : Except SchemaError (List InputField)) :
    ((∀ e, s.calls.editor? ticket.block = some e → e.selection ≠ some ticket) ∧
        s.deliver ticket answer = (.stale, s)) ∨
      ∃ e, s.calls.editor? ticket.block = some e ∧ e.selection = some ticket ∧
        s.deliver ticket answer = (.applied, { s with
          calls := s.calls.put ticket.block (e.receive answer (s.argsOf ticket.block)) }) := by
  rw [deliver, CallEditors.deliver]
  rcases he : s.calls.editor? ticket.block with _ | e
  · exact .inl ⟨nofun, rfl⟩
  · by_cases hs : e.selection = some ticket
    · right
      refine ⟨e, rfl, hs, ?_⟩
      dsimp only
      rw [if_pos hs]
    · left
      refine ⟨fun e' he' => Option.some.inj he' ▸ hs, ?_⟩
      dsimp only
      rw [if_neg hs]

theorem editFreeText_of_some (h : s.call? id = some c) (raw : String) :
    s.editFreeText id raw = Session.setArgs
      { s with calls := s.calls.setFreeText id raw (Arguments.read raw.toList) } id
      (Arguments.read raw.toList) := by
  rw [editFreeText, h]

theorem setManual_of_some (h : s.call? id = some c) (manual : Bool) :
    s.setManual id manual = { s with calls := s.calls.setManual id manual c.args } := by
  rw [setManual, h]

end Blockscript.Session
