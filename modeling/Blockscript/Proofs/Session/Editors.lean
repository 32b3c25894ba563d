import Blockscript.Proofs.Forest.Blocks
import Blockscript.Proofs.Session.Run

/-!
# Editors and their calls

What an edit does to the calls of a document (`call?_setField`, `call?_remove`), and what keeps the
editor of a block in a relation to its call, `EditorAt`, whatever the relation is. An operation that
is not about the call asks for nothing; one that is asks what the relation has to do with its own
change of the editor or of the call. Replacing the product or the method leaves one editor behind,
so the relation is told for each block on its own, and `EditorAt.put` makes up for that editor once
another one is put in place.
-/

namespace Blockscript

/-! ## Calls after an edit -/

/-- The call with `field` replaced; a field or value that does not fit changes nothing. -/
def Call.withField (c : Call) : BlockField → FieldValue → Call
  | .product, .text product => { c with product }
  | .method, .text method => { c with method }
  | .args, .args args => { c with args }
  | _, _ => c

theorem BlockKind.call?_withField (kind : BlockKind) (field : BlockField) (value : FieldValue) :
    (kind.withField field value).call? = kind.call?.map (·.withField field value) := by
  cases value <;> cases kind <;> cases field <;> rfl

/-- No other field is one of a call. -/
theorem Call.withField_of_ne {field : BlockField} (hp : field ≠ .product) (hm : field ≠ .method)
    (ha : field ≠ .args) (c : Call) (value : FieldValue) : c.withField field value = c := by
  cases value <;> cases field <;> first | rfl | contradiction

theorem CallEditors.editor?_refresh (c : CallEditors) (id : BlockId) (args : List CallArg)
    (other : BlockId) : (c.refresh id args).editor? other =
      if other = id then (c.editor? id).map (·.refresh args) else c.editor? other := by
  unfold refresh
  rcases he : c.editor? id with _ | e
  · dsimp only
    split
    · rename_i hid
      rw [hid, he, Option.map_none]
    · rfl
  · rfl

namespace Session

variable {s t : Session} {id other : BlockId} {c : Call} {e : CallEditor}

theorem contains_of_call? (h : s.call? id = some c) : s.statements.contains id = true := by
  obtain ⟨b, hb, -⟩ := Option.bind_eq_some_iff.1 h
  rw [Forest.contains_eq_isSome_get?, hb]
  rfl

/-- A call is the call of a block among the statements. -/
theorem get?_of_call? (h : s.call? id = some c) : s.statements.get? id = some ⟨id, .call c⟩ := by
  obtain ⟨b, hb, hc⟩ := Option.bind_eq_some_iff.1 h
  obtain ⟨id', kind⟩ := b
  obtain rfl : id' = id := Forest.id_of_get? hb
  rw [hb]
  cases kind <;> cases hc
  rfl

/-- A new block takes the place of no call. -/
theorem call?_add {place : Place} {b : Block} {f : Forest}
    (h : s.statements.add? place b = some f) (hc : s.call? id = some c) :
    (f.get? id).bind (·.kind.call?) = some c := by
  have hne : b.id ≠ id := by
    rintro rfl
    cases (Forest.add?_eq_some_iff.1 h).1.symm.trans (contains_of_call? hc)
  rw [Forest.get?_of_add? h, if_neg hne]
  exact hc

/-- The calls after a replacement: one of them has the field replaced. -/
theorem call?_setField (s : Session) (id : BlockId) (field : BlockField) (value : FieldValue)
    (other : BlockId) : (s.setField id field value).2.call? other =
      (s.call? other).map fun c => if other = id then c.withField field value else c := by
  by_cases hid : s.statements.contains id = true
  · have hS : (s.setField id field value).2.statements =
        (s.statements.update? id field value).getD s.statements := by
      rw [setField, setField?, if_pos hid]
      cases s.statements.update? id field value <;> rfl
    rw [call?, hS, Forest.get?_getD_update?, call?, Option.bind_map, Option.map_bind]
    refine Option.bind_congr fun b hb => ?_
    rw [Function.comp_apply, Function.comp_apply, Forest.id_of_get? hb]
    split
    · exact b.kind.call?_withField field value
    · rw [Option.map_id']
  · have hS : (s.setField id field value).2.statements = s.statements := by
      rw [setField, setField?, if_neg hid]
      cases s.preconditions.update? id field value <;> rfl
    rw [call?, hS, ← call?]
    rcases hc : s.call? other with _ | c
    · rfl
    · have hne : other ≠ id := by
        rintro rfl
        exact hid (contains_of_call? hc)
      rw [Option.map_some, if_neg hne]

theorem argsOf_of_call? (h : s.call? id = some c) : s.argsOf id = c.args := by
  rw [argsOf, h]
  rfl

/-- The calls after the arguments of one of them were replaced. -/
theorem call?_setArgs (s : Session) (id : BlockId) (args : List CallArg) (other : BlockId) :
    (s.setArgs id args).2.call? other =
      (s.call? other).map fun c => if other = id then { c with args } else c := by
  have hset := s.call?_setField id .args (.args args) other
  unfold setField at hset
  unfold setArgs
  rcases h : s.setField? id .args (.args args) with _ | t
  · rw [h] at hset
    exact hset
  · rw [h] at hset
    exact hset

theorem call?_eq_none_of_setField? {field : BlockField} {value : FieldValue}
    (h : s.setField? id field value = some t) (hnone : t.call? other = none) :
    s.call? other = none := by
  have hcall := call?_setField s id field value other
  rw [setField_of_some h, hnone] at hcall
  exact Option.map_eq_none_iff.1 hcall.symm

/-- A selected call is of the product and the method. -/
theorem call?_retarget (h : s.call? id = some c) (product method : String) :
    (s.retarget id product method).call? id = some { c with product, method } := by
  have hcall : ((s.setField id .product (.text product)).2.setField id .method
      (.text method)).2.call? id = some { c with product, method } := by
    rw [call?_setField, call?_setField, h, Option.map_some, Option.map_some, if_pos rfl, if_pos rfl]
    rfl
  rw [retarget]
  split <;> exact hcall

/-- The calls after a removal among the statements: those that are still there. -/
theorem call?_remove {f : Forest} (h : s.statements.remove? id = some f)
    (hc : s.call? other = some c) (hkeep : f.contains other = true) :
    (f.get? other).bind (·.kind.call?) = some c := by
  obtain ⟨-, hkeep⟩ := (Forest.contains_of_remove?_iff h).1 hkeep
  rw [Forest.get?_of_remove? h, if_neg hkeep]
  exact hc

/-! ## Editors -/

/-- Whether a block with an editor is a call among the statements that the editor stands in a
relation to. -/
def EditorAt (s : Session) (id : BlockId) (R : CallEditor → Call → Prop) : Prop :=
  ∀ e, s.calls.editor? id = some e → ∃ c, s.call? id = some c ∧ R e c

namespace EditorAt

variable {R : CallEditor → Call → Prop} {field : BlockField} {value : FieldValue}

theorem of_eq (h : s.EditorAt id R) (hcalls : t.calls.editor? id = s.calls.editor? id)
    (hcall : ∀ c, s.call? id = some c → t.call? id = some c) : t.EditorAt id R := by
  intro e he
  rw [hcalls] at he
  obtain ⟨c, hc, hR⟩ := h e he
  exact ⟨c, hcall c hc, hR⟩

/-- What touches neither statements nor editors keeps every relation. -/
theorem of_statements_eq (h : s.EditorAt id R) (hcalls : t.calls = s.calls)
    (hS : t.statements = s.statements) : t.EditorAt id R :=
  h.of_eq (by rw [hcalls]) fun c hc => by rwa [call?, hS]

theorem of_editor?_eq_none (h : s.calls.editor? id = none) : s.EditorAt id R :=
  fun _ he => nomatch h.symm.trans he

/-- A block that is no call has no editor. -/
theorem editor?_eq_none (h : s.EditorAt id R) (hc : s.call? id = none) :
    s.calls.editor? id = none := by
  rcases he : s.calls.editor? id with _ | e
  · rfl
  · obtain ⟨c, hc', -⟩ := h e he
    cases hc'.symm.trans hc

/-- An editor put in place is the one that counts. -/
theorem put (h : other ≠ id → s.EditorAt other R) (hc : s.call? id = some c)
    (he : other = id → R e c) : EditorAt { s with calls := s.calls.put id e } other R := by
  by_cases hid : other = id
  · subst hid
    intro e' he'
    rw [CallEditors.editor?_put_self] at he'
    exact ⟨c, hc, Option.some.inj he' ▸ he rfl⟩
  · exact (h hid).of_eq (CallEditors.editor?_put_of_ne s.calls e hid) fun _ hc => hc

/-- The editor of a call, a new one if it has none. -/
theorem getOrNew (h : s.EditorAt id R) (hc : s.call? id = some c) {args : List CallArg}
    (hnew : R (.unselected args) c) : R (s.calls.getOrNew id args) c := by
  rw [CallEditors.getOrNew]
  rcases he : s.calls.editor? id with _ | e
  · exact hnew
  · obtain ⟨c', hc', hR⟩ := h e he
    rw [hc] at hc'
    exact Option.some.inj hc' ▸ hR

/-! ### Fields and arguments -/

theorem setField? (h : s.EditorAt other R) (ht : s.setField? id field value = some t)
    (hR : other = id → ∀ e c, R e c → R e (c.withField field value)) : t.EditorAt other R := by
  intro e he
  rw [calls_setField? ht] at he
  obtain ⟨c, hc, hagree⟩ := h e he
  have hcall := call?_setField s id field value other
  rw [setField_of_some ht, hc, Option.map_some] at hcall
  refine ⟨_, hcall, ?_⟩
  split
  · exact hR ‹_› e c hagree
  · exact hagree

theorem setArgs (h : s.EditorAt other R) (id : BlockId) (args : List CallArg)
    (hR : other = id → ∀ e c, s.calls.editor? other = some e → R e c → R e { c with args }) :
    (s.setArgs id args).2.EditorAt other R := by
  intro e he
  rw [calls_setArgs] at he
  obtain ⟨c, hc, hagree⟩ := h e he
  have hcall := call?_setArgs s id args other
  rw [hc, Option.map_some] at hcall
  refine ⟨_, hcall, ?_⟩
  split
  · exact hR ‹_› e c he hagree
  · exact hagree

/-- Replaced arguments are shown in the line of their call. -/
theorem followArgs (h : s.EditorAt other R) (ht : s.setField? id .args value = some t)
    (hargs : other = id → ∀ e c, R e c →
      R (e.refresh (c.withField .args value).args) (c.withField .args value))
    (hc : t.call? id = some c) :
    EditorAt { t with calls := t.calls.refresh id c.args } other R := by
  intro e he
  rw [CallEditors.editor?_refresh] at he
  split at he
  · rename_i hid
    subst hid
    obtain ⟨e', he', rfl⟩ := Option.map_eq_some_iff.1 he
    rw [calls_setField? ht] at he'
    obtain ⟨old, hold, hR⟩ := h e' he'
    have hcall := call?_setField s other .args value other
    rw [setField_of_some ht, hold, Option.map_some, if_pos rfl, hc] at hcall
    exact ⟨c, hc, Option.some.inj hcall ▸ hargs rfl e' old hR⟩
  · rename_i hid
    exact h.setField? ht (fun hid' => absurd hid' hid) e he

/-- Another product or method of a call puts a new editor in place, and other arguments are shown in
its line. No other field is one of a call. -/
theorem followField (h : s.EditorAt other R) (ht : s.setField? id field value = some t)
    (hnew : other = id → ∀ (c : Call) manual, R { CallEditor.unselected c.args with manual } c)
    (hargs : other = id → ∀ e c, R e c →
      R (e.refresh (c.withField .args value).args) (c.withField .args value)) :
    (t.followField id field).EditorAt other R := by
  have hothers : other ≠ id → t.EditorAt other R := fun hne =>
    h.setField? ht fun hid => absurd hid hne
  rcases hc : t.call? id with _ | c
  · have hf : t.followField id field = t := by
      unfold Session.followField
      rw [hc]
    rw [hf]
    by_cases hid : other = id
    · subst hid
      refine of_editor?_eq_none ?_
      rw [calls_setField? ht]
      exact h.editor?_eq_none (call?_eq_none_of_setField? ht hc)
    · exact hothers hid
  · by_cases hfield : field = .args
    · subst hfield
      have hf : t.followField id .args = { t with calls := t.calls.refresh id c.args } := by
        unfold Session.followField
        rw [hc]
      rw [hf]
      exact h.followArgs ht hargs hc
    · rcases t.followField_cases id field with
        ⟨hkept, hf⟩ | ⟨c, hc, -, hf⟩ | ⟨c, e, -, -, hfield', -⟩
      · rw [hf]
        rcases hkept with hnone | ⟨hp, hm⟩
        · cases hnone.symm.trans hc
        · exact h.setField? ht fun _ e c hR => by rwa [c.withField_of_ne hp hm hfield]
      · rw [hf]
        exact put hothers hc fun hid => hnew hid c _
      · exact absurd hfield' hfield

theorem update (h : s.EditorAt other R) (id : BlockId) (field : BlockField) (value : FieldValue)
    (hnew : other = id → ∀ (c : Call) manual, R { CallEditor.unselected c.args with manual } c)
    (hargs : other = id → ∀ e c, R e c →
      R (e.refresh (c.withField .args value).args) (c.withField .args value)) :
    (s.update id field value).2.EditorAt other R := by
  rcases s.update_cases id field value with hs | ⟨t, ht, hs⟩ <;> rw [hs]
  · exact h
  · exact (h.followField ht hnew hargs).of_statements_eq rfl rfl

/-- Arguments are edited in a form only where the editor is one. -/
theorem editArgument (h : s.EditorAt other R) (id : BlockId) (name value : String)
    (hR : other = id → ∀ e c fields args, e.editor = .structured fields → R e c →
      R e { c with args }) : (s.editArgument id name value).2.EditorAt other R := by
  unfold Session.editArgument
  split
  · exact h
  · rename_i args hargs
    refine h.setArgs id args ?_
    rintro rfl e c' he hagree
    obtain ⟨c, -, hedit⟩ := Option.bind_eq_some_iff.1 hargs
    obtain ⟨fields, hfields, -⟩ := Option.bind_eq_some_iff.1 hedit
    refine hR rfl e c' fields args ?_ hagree
    rw [CallEditors.fields?, he] at hfields
    split at hfields
    · rename_i hsome
      cases hsome
      cases hfields
      rfl
    · cases hfields

/-- A typed line is put in place along with the arguments that it lists. -/
theorem editFreeText (h : other ≠ id → s.EditorAt other R) (hc : s.call? id = some c) {raw : String}
    (hR : other = id →
      R { s.calls.getOrNew id (Arguments.read raw.toList) with editor := .freeText raw }
        { c with args := Arguments.read raw.toList }) :
    (s.editFreeText id raw).2.EditorAt other R := by
  rw [editFreeText_of_some hc]
  by_cases hid : other = id
  · subst hid
    intro e he
    rw [calls_setArgs] at he
    have hedited := (CallEditors.editor?_put_self _ _ _).symm.trans he
    refine ⟨{ c with args := Arguments.read raw.toList }, ?_, Option.some.inj hedited ▸ hR rfl⟩
    have hcall : Session.call? { s with
        calls := s.calls.setFreeText other raw (Arguments.read raw.toList) } other = some c := hc
    rw [call?_setArgs, hcall, Option.map_some, if_pos rfl]
  · have hput : EditorAt { s with
        calls := s.calls.setFreeText id raw (Arguments.read raw.toList) } other R :=
      (h hid).of_eq (CallEditors.editor?_put_of_ne s.calls _ hid) fun _ hc => hc
    exact hput.setArgs id _ fun he => absurd he hid

/-! ### Blocks -/

theorem add (h : s.EditorAt id R) (place : Place) (kind : BlockKind) :
    (s.add place kind).2.EditorAt id R := by
  rcases s.add_cases place kind with hs | ⟨-, f, -, hs⟩ | ⟨f, hf, hs⟩ <;> rw [hs]
  · exact h.of_statements_eq rfl rfl
  · exact h.of_statements_eq rfl rfl
  · exact h.of_eq rfl fun _ => call?_add hf

theorem remove (h : s.EditorAt other R) (id : BlockId) : (s.remove id).2.EditorAt other R := by
  rcases s.remove_cases id with ⟨-, hs⟩ | ⟨f, hf, hs⟩ | ⟨-, f, -, hs⟩ <;> rw [hs]
  · exact h
  · intro e he
    have hkeep : f.contains other = true ∧ s.calls.editor? other = some e :=
      Option.ite_none_right_eq_some.1 he
    obtain ⟨c, hc, hR⟩ := h e hkeep.2
    exact ⟨c, call?_remove hf hc hkeep.1, hR⟩
  · exact h.of_statements_eq rfl rfl

theorem reorder (h : s.EditorAt id R) (active goal : BlockId) :
    (s.reorder active goal).2.EditorAt id R := by
  rcases s.reorder_cases active goal with hs | ⟨f, hf, hs⟩ | ⟨f, -, hs⟩ <;> rw [hs]
  · exact h
  · refine h.of_eq rfl fun c hc => ?_
    have hcall : (f.get? id).bind (·.kind.call?) = some c := by
      rw [Forest.get?_of_reorder? hf]
      exact hc
    exact hcall
  · exact h.of_statements_eq rfl rfl

theorem setHeader (h : s.EditorAt id R) (header : Header) : (s.setHeader header).EditorAt id R := by
  rw [Session.setHeader]
  split
  · exact h
  · exact h.of_statements_eq rfl rfl

/-! ### Selections and answers -/

theorem select (h : s.EditorAt other R) (id : BlockId) (product method : String)
    (hR : other = id → ∀ (e : CallEditor) (c : Call) (n : ℕ),
      R (e.select ⟨id, product, method, n⟩ c.args) { c with product, method }) :
    (s.select id product method).2.EditorAt other R := by
  rcases hc : s.call? id with _ | c
  · rwa [select_of_none hc]
  -- `retarget` leaves the editor of `id` behind until the new selection is put in its place.
  · have hothers : other ≠ id → (s.retarget id product method).EditorAt other R := by
      intro hne
      rcases retarget_cases (Q := fun t => t.EditorAt other R) h
        (fun ht hset => ht.setField? hset fun hid => absurd hid hne) product method with
        hs | ⟨t, ht, hs⟩ <;> rw [hs]
      · exact h
      · exact ht.of_statements_eq rfl rfl
    have hcall := call?_retarget hc product method
    rw [select_of_some hc, argsOf_of_call? hcall]
    exact (put hothers hcall fun hid => hR hid _ c _).of_eq rfl fun _ hc => hc

theorem deliver (h : s.EditorAt id R) (ticket : Selection)
    (answer : Except SchemaError (List InputField))
    (hR : ∀ e c, e.selection = some ticket → R e c → R (e.receive answer c.args) c) :
    (s.deliver ticket answer).2.EditorAt id R := by
  rcases s.deliver_cases ticket answer with ⟨-, hs⟩ | ⟨e, he, hsel, hs⟩ <;> rw [hs]
  · exact h
  · by_cases hid : id = ticket.block
    · subst hid
      obtain ⟨c, hc, hagree⟩ := h e he
      rw [argsOf_of_call? hc]
      exact put (fun _ => h) hc fun _ => hR e c hsel hagree
    · exact h.of_eq (CallEditors.editor?_put_of_ne s.calls _ hid) fun _ hc => hc

theorem setManual (h : s.EditorAt other R) (id : BlockId) (manual : Bool)
    (hR : other = id → ∀ c, s.call? id = some c →
      R ((s.calls.getOrNew id c.args).setManual manual c.args) c) :
    (s.setManual id manual).EditorAt other R := by
  rcases hc : s.call? id with _ | c
  · rwa [Session.setManual, hc]
  · rw [setManual_of_some hc]
    exact put (fun _ => h) hc fun hid => hR hid c hc

end EditorAt

/-- A session starts without editors. -/
theorem editor?_start (start : Start) (id : BlockId) :
    start.session.calls.editor? id = none := by
  cases start with
  | restored n => rfl
  | opened opening =>
    cases opening with
    | new mode header => rfl
    | build mode header listeners source => cases source <;> rfl
    | definition d => rfl

end Session

end Blockscript
