import Blockscript.Proofs.Session.Run

/-!
# What operations leave alone

The mode of a session never changes (`mode_performAll`), its header only by `setHeader`
(`header_performAll`), and the last text of the host only where the host gives another one
(`source_performAll`). What a user does leaves all three alone (`edited_perform`). Whatever does not
read a text changes blocks only along with the status (`blocks_perform`).
-/

namespace Blockscript.Session

/-- Whether a session has the mode, the header and the last text of the host that another one
has. -/
structure SameHost (s t : Session) : Prop where
  mode_eq : t.mode = s.mode
  header_eq : t.header = s.header
  source_eq : t.source = s.source

/-- Whether, besides, the blocks are the same unless the session is dirty. -/
structure Edited (s t : Session) : Prop extends SameHost s t where
  blocks : t.status = .dirty ∨
    t.statements = s.statements ∧ t.preconditions = s.preconditions ∧ t.status = s.status

/-- Whether an operation is about the header or the text of the host. -/
def Op.fromHost : Op → Bool
  | .setHeader _ | .openText _ | .setSource _ | .resync => true
  | _ => false

/-- Whether an operation leaves the last text of the host alone. -/
def Op.keepsSource : Op → Bool
  | .openText _ | .setSource _ => false
  | _ => true

/-- Whether an operation leaves the header alone. -/
def Op.keepsHeader : Op → Bool
  | .setHeader _ => false
  | _ => true

/-- Whether an operation reads a text. -/
def Op.reads : Op → Bool
  | .openText _ | .resync => true
  | _ => false

variable {s t u : Session}

/-! ## Edits -/

namespace SameHost

theorem refl (s : Session) : SameHost s s := ⟨rfl, rfl, rfl⟩

theorem setField? (h : SameHost s t) {id : BlockId} {field : BlockField} {value : FieldValue}
    (ht : t.setField? id field value = some u) : SameHost s u := by
  rcases setField?_cases ht with ⟨f, -, rfl⟩ | ⟨-, f, -, rfl⟩ <;>
    exact ⟨h.mode_eq, h.header_eq, h.source_eq⟩

theorem followField (h : SameHost s t) (id : BlockId) (field : BlockField) :
    SameHost s (t.followField id field) := by
  unfold Session.followField
  split <;> exact ⟨h.mode_eq, h.header_eq, h.source_eq⟩

/-- What was committed is dirty. -/
theorem commit (h : SameHost s t) : Edited s t.commit :=
  ⟨⟨h.mode_eq, h.header_eq, h.source_eq⟩, .inl rfl⟩

end SameHost

namespace Edited

theorem refl (s : Session) : Edited s s := ⟨.refl s, .inr ⟨rfl, rfl, rfl⟩⟩

/-- Other call editors are no difference. -/
theorem withCalls (h : Edited s t) (calls : CallEditors) : Edited s { t with calls } :=
  ⟨⟨h.mode_eq, h.header_eq, h.source_eq⟩, h.blocks⟩

theorem setArgs (s : Session) (id : BlockId) (args : List CallArg) :
    Edited s (s.setArgs id args).2 := by
  rcases s.setArgs_cases id args with ht | ⟨t, hset, ht⟩ <;> rw [ht]
  · exact .refl s
  · exact ((SameHost.refl s).setField? hset).commit

theorem retarget (s : Session) (id : BlockId) (product method : String) :
    Edited s (s.retarget id product method) := by
  have hs := SameHost.refl s
  rcases retarget_cases hs (fun ht => ht.setField?) product method with ht | ⟨t, hs, ht⟩ <;>
    rw [ht]
  · exact .refl s
  · exact hs.commit

end Edited

/-- **An edit** keeps what the session has from the host, and changes blocks only along with the
status. -/
theorem edited_perform (s : Session) {e : Op} (he : e.fromHost = false) :
    Edited s (s.perform e) := by
  have hs := SameHost.refl s
  cases e with
  | setHeader header => cases he
  | openText text => cases he
  | setSource text => cases he
  | resync => cases he
  | add place kind =>
    rw [perform]
    rcases s.add_cases place kind with ht | ⟨-, f, -, ht⟩ | ⟨f, -, ht⟩ <;> rw [ht]
    · exact ⟨⟨rfl, rfl, rfl⟩, .inr ⟨rfl, rfl, rfl⟩⟩
    · exact ⟨⟨rfl, rfl, rfl⟩, .inl rfl⟩
    · exact ⟨⟨rfl, rfl, rfl⟩, .inl rfl⟩
  | update id field value =>
    rw [perform]
    rcases s.update_cases id field value with ht | ⟨t, hset, ht⟩ <;> rw [ht]
    · exact .refl s
    · exact ((hs.setField? hset).followField id field).commit
  | remove id =>
    rw [perform]
    rcases s.remove_cases id with ⟨-, ht⟩ | ⟨f, -, ht⟩ | ⟨-, f, -, ht⟩ <;> rw [ht]
    · exact .refl s
    · exact ⟨⟨rfl, rfl, rfl⟩, .inl rfl⟩
    · exact ⟨⟨rfl, rfl, rfl⟩, .inl rfl⟩
  | reorder active goal =>
    rw [perform]
    rcases s.reorder_cases active goal with ht | ⟨f, -, ht⟩ | ⟨f, -, ht⟩ <;> rw [ht]
    · exact .refl s
    · exact ⟨⟨rfl, rfl, rfl⟩, .inl rfl⟩
    · exact ⟨⟨rfl, rfl, rfl⟩, .inl rfl⟩
  | select id product method =>
    rw [perform]
    rcases hc : s.call? id with _ | c
    · rw [select_of_none hc]
      exact .refl s
    · rw [select_of_some hc]
      exact (Edited.retarget s id product method).withCalls _
  | deliver ticket answer => exact (Edited.refl s).withCalls _
  | editArgument id name value =>
    rw [perform, editArgument]
    split
    · exact .refl s
    · exact .setArgs s id _
  | editFreeText id raw =>
    rw [perform, editFreeText]
    split
    · exact .refl s
    · have ht := Edited.setArgs { s with
        calls := s.calls.setFreeText id raw (Arguments.read raw.toList) } id
        (Arguments.read raw.toList)
      exact ⟨⟨ht.mode_eq, ht.header_eq, ht.source_eq⟩, ht.blocks⟩
  | setManual id manual =>
    rw [perform, setManual]
    split
    · exact .refl s
    · exact (Edited.refl s).withCalls _
  | listen => exact ⟨⟨rfl, rfl, rfl⟩, .inr ⟨rfl, rfl, rfl⟩⟩

/-- **An operation that reads no text** changes blocks only along with the status. -/
theorem blocks_perform (s : Session) {e : Op} (he : e.reads = false) :
    (s.perform e).status = .dirty ∨ (s.perform e).statements = s.statements ∧
      (s.perform e).preconditions = s.preconditions ∧ (s.perform e).status = s.status := by
  by_cases hhost : e.fromHost = false
  · exact (s.edited_perform hhost).blocks
  · cases e with
    | setHeader header =>
      rw [perform, setHeader]
      split <;> exact .inr ⟨rfl, rfl, rfl⟩
    | setSource text => exact .inr ⟨rfl, rfl, rfl⟩
    | openText text => cases he
    | resync => cases he
    | _ => exact absurd rfl hhost

/-! ## Mode, header and text of the host -/

theorem mode_perform (s : Session) (e : Op) : (s.perform e).mode = s.mode := by
  by_cases he : e.fromHost = false
  · exact (s.edited_perform he).mode_eq
  · cases e with
    | setHeader header =>
      rw [perform, setHeader]
      split <;> rfl
    | openText text => rfl
    | setSource text => rfl
    | resync => rfl
    | _ => exact absurd rfl he

theorem header_perform (s : Session) {e : Op} (h : e.keepsHeader = true) :
    (s.perform e).header = s.header := by
  by_cases he : e.fromHost = false
  · exact (s.edited_perform he).header_eq
  · cases e with
    | setHeader header => cases h
    | openText text => rfl
    | setSource text => rfl
    | resync => rfl
    | _ => exact absurd rfl he

theorem source_perform (s : Session) {e : Op} (h : e.keepsSource = true) :
    (s.perform e).source = s.source := by
  by_cases he : e.fromHost = false
  · exact (s.edited_perform he).source_eq
  · cases e with
    | setHeader header =>
      rw [perform, setHeader]
      split <;> rfl
    | openText text => cases h
    | setSource text => cases h
    | resync => rfl
    | _ => exact absurd rfl he

/-- **The mode** stays. -/
theorem mode_performAll (s : Session) (ops : List Op) : (s.performAll ops).mode = s.mode := by
  induction ops generalizing s with
  | nil => rfl
  | cons e ops ih => exact (ih (s.perform e)).trans (s.mode_perform e)

/-- **The header** stays if no other one is set. -/
theorem header_performAll (s : Session) {ops : List Op} (h : ∀ e ∈ ops, e.keepsHeader = true) :
    (s.performAll ops).header = s.header := by
  induction ops generalizing s with
  | nil => rfl
  | cons e ops ih =>
    obtain ⟨he, hops⟩ := List.forall_mem_cons.1 h
    exact (ih (s.perform e) hops).trans (s.header_perform he)

/-- A session stays in step under the header it has if no other one is set. -/
theorem InStep.performAll_of_keepsHeader {mode : Mode} {header : Header}
    (h : InStep mode header s) {ops : List Op} (hops : ∀ e ∈ ops, e.keepsHeader = true) :
    InStep mode header (s.performAll ops) := by
  have hheader : (s.performAll ops).header = header :=
    (s.header_performAll hops).trans h.header_eq
  exact hheader ▸ h.performAll ops

/-- **The last text of the host** stays if it gives no other one. -/
theorem source_performAll (s : Session) {ops : List Op} (h : ∀ e ∈ ops, e.keepsSource = true) :
    (s.performAll ops).source = s.source := by
  induction ops generalizing s with
  | nil => rfl
  | cons e ops ih =>
    obtain ⟨he, hops⟩ := List.forall_mem_cons.1 h
    exact (ih (s.perform e) hops).trans (s.source_perform he)

end Blockscript.Session
