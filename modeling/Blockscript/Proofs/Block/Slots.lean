import Blockscript.Proofs.Text.Trim
import Blockscript.Block.Field

/-!
# Slots of a kind of block

`BlockKind.withField` is a kind with a value put into one of its fields. An update compares the slot
it is about and no other, and yet answers exactly if that kind is another one (`update?_eq`), since
a kind with another content in one slot is another kind.

`BlockKind.slot?` reads the field that `BlockKind.withField` writes: text, text that may be missing,
or a list of arguments, and nothing where a kind does not have the field. A kind is told by its tag
and its slots (`eq_of_slots`), and putting a value into a field is putting it into that one slot
(`slot?_withField`); what an update answers and leaves follows from these two (`update_exact`).
-/

namespace Blockscript

namespace BlockKind

/-- The kind with its text field `field` replaced; a field it does not have changes nothing. -/
def withText : BlockKind → BlockField → String → BlockKind
  | .set _ value, .target, t => .set t value
  | .set target _, .value, t => .set target t
  | .trigger _ action target, .entity, t => .trigger t action target
  | .trigger entity _ target, .action, t => .trigger entity t target
  | .trigger entity action _, .target, t => .trigger entity action t
  | .forEach _ entity conditions, .binder, t => .forEach t entity conditions
  | .forEach binder _ conditions, .entity, t => .forEach binder t conditions
  | .forEach binder entity _, .conditions, t => .forEach binder entity (unlessBlank t)
  | .precondition _ conditions message, .label, t => .precondition t conditions message
  | .precondition label _ message, .conditions, t => .precondition label t message
  | .precondition label conditions _, .onFailure, t =>
    .precondition label conditions (unlessBlank t)
  | .call c, .product, t => .call { c with product := t }
  | .call c, .method, t => .call { c with method := t }
  | kind, _, _ => kind

/-- The kind with `field` replaced; a field or value that does not fit changes nothing. -/
def withField : BlockKind → BlockField → FieldValue → BlockKind
  | .call c, .args, .args args => .call { c with args }
  | kind, field, .text t => kind.withText field t
  | kind, _, .args _ => kind

@[simp] theorem tag_withField (kind : BlockKind) (field : BlockField) (value : FieldValue) :
    (kind.withField field value).tag = kind.tag := by
  cases value with
  | text t => cases kind <;> cases field <;> rfl
  | args as => cases kind <;> cases field <;> rfl

/-! ## Updates compare one slot -/

/-- A slot held by an injective constructor has another content exactly if the whole has. -/
theorem map_replace? {α : Type} [DecidableEq α] {f : α → BlockKind} (hf : f.Injective)
    (slot next : α) :
    (replace? slot next).map f = if f next = f slot then none else some (f next) := by
  unfold replace?
  by_cases h : slot = next
  · rw [if_pos h, if_pos (congrArg f h.symm)]
    rfl
  · rw [if_neg h, if_neg fun he => h (hf he).symm]
    rfl

/-- **An update answers exactly if** the kind with the value put in is another one. -/
theorem update?_eq (kind : BlockKind) (field : BlockField) (value : FieldValue) :
    kind.update? field value =
      if kind.withField field value = kind then none else some (kind.withField field value) := by
  cases kind <;> cases value <;> cases field
  case set.text.target => exact map_replace? (fun _ _ h => (set.inj h).1) _ _
  case set.text.value => exact map_replace? (fun _ _ h => (set.inj h).2) _ _
  case trigger.text.entity => exact map_replace? (fun _ _ h => (trigger.inj h).1) _ _
  case trigger.text.action => exact map_replace? (fun _ _ h => (trigger.inj h).2.1) _ _
  case trigger.text.target => exact map_replace? (fun _ _ h => (trigger.inj h).2.2) _ _
  case forEach.text.binder => exact map_replace? (fun _ _ h => (forEach.inj h).1) _ _
  case forEach.text.entity => exact map_replace? (fun _ _ h => (forEach.inj h).2.1) _ _
  case forEach.text.conditions => exact map_replace? (fun _ _ h => (forEach.inj h).2.2) _ _
  case precondition.text.label => exact map_replace? (fun _ _ h => (precondition.inj h).1) _ _
  case precondition.text.conditions =>
    exact map_replace? (fun _ _ h => (precondition.inj h).2.1) _ _
  case precondition.text.onFailure =>
    exact map_replace? (fun _ _ h => (precondition.inj h).2.2) _ _
  case call.text.product c t =>
    exact map_replace? (fun _ _ h => congrArg Call.product (call.inj h)) c.product t
  case call.text.method c t =>
    exact map_replace? (fun _ _ h => congrArg Call.method (call.inj h)) c.method t
  case call.args.args c as =>
    exact map_replace? (fun _ _ h => congrArg Call.args (call.inj h)) c.args as
  -- The kind has no such field, or the value is of the other shape.
  all_goals exact (if_pos rfl).symm

variable {kind next : BlockKind} {field other : BlockField} {value v : FieldValue}

theorem update?_eq_none_iff :
    kind.update? field value = none ↔ kind.withField field value = kind := by
  rw [update?_eq]
  split <;> simp_all

theorem eq_withField_of_update? (h : kind.update? field value = some next) :
    next = kind.withField field value ∧ next ≠ kind := by
  rw [update?_eq] at h
  split at h
  · simp at h
  · simp only [Option.some.injEq] at h
    exact ⟨h.symm, h ▸ ‹_›⟩

end BlockKind

/-! ## Slots -/

/-- What a field of a block holds. -/
inductive Slot where
  | text (t : String)
  | optional (t : Option String)
  | args (args : List CallArg)
  deriving DecidableEq, Repr

namespace Slot

/-- Whether a value has the shape of a slot. -/
def Fits : Slot → FieldValue → Prop
  | .text _, .text _ => True
  | .optional _, .text _ => True
  | .args _, .args _ => True
  | _, _ => False

/-- The slot with a value put into it, if the value fits; blank text clears an optional one. -/
def put : Slot → FieldValue → Slot
  | .text _, .text t => .text t
  | .optional _, .text t => .optional (unlessBlank t)
  | .args _, .args as => .args as
  | s, _ => s

theorem put_put (s : Slot) (v : FieldValue) : (s.put v).put v = s.put v := by
  cases s <;> cases v <;> rfl

theorem put_of_not_fits {s : Slot} {v : FieldValue} (h : ¬ s.Fits v) : s.put v = s := by
  cases s <;> cases v
  case text.text => exact absurd trivial h
  case optional.text => exact absurd trivial h
  case args.args => exact absurd trivial h
  all_goals rfl

end Slot

theorem unlessBlank_eq_none_iff {t : String} : unlessBlank t = none ↔ Text.Blanks t.toList := by
  rw [unlessBlank, ← Text.trim_eq_nil_iff]
  split <;> simp_all

theorem unlessBlank_of_not_blanks {t : String} (h : ¬ Text.Blanks t.toList) :
    unlessBlank t = some t := by
  rw [← Text.trim_eq_nil_iff] at h
  exact if_neg h

namespace BlockKind

/-- The slot of a field, if the kind has that field. -/
def slot? : BlockKind → BlockField → Option Slot
  | .set target _, .target => some (.text target)
  | .set _ value, .value => some (.text value)
  | .trigger entity _ _, .entity => some (.text entity)
  | .trigger _ action _, .action => some (.text action)
  | .trigger _ _ target, .target => some (.text target)
  | .forEach binder _ _, .binder => some (.text binder)
  | .forEach _ entity _, .entity => some (.text entity)
  | .forEach _ _ conditions, .conditions => some (.optional conditions)
  | .precondition label _ _, .label => some (.text label)
  | .precondition _ conditions _, .conditions => some (.text conditions)
  | .precondition _ _ onFailure, .onFailure => some (.optional onFailure)
  | .call c, .product => some (.text c.product)
  | .call c, .method => some (.text c.method)
  | .call c, .args => some (.args c.args)
  | _, _ => none

/-- A kind is told by its tag and its slots. -/
theorem eq_of_slots {kind kind' : BlockKind} (htag : kind.tag = kind'.tag)
    (h : ∀ field, kind.slot? field = kind'.slot? field) : kind = kind' := by
  cases kind <;> cases kind' <;> try cases htag
  case set.set =>
    have htarget := h .target
    have hvalue := h .value
    simp_all [slot?]
  case trigger.trigger =>
    have hentity := h .entity
    have haction := h .action
    have htarget := h .target
    simp_all [slot?]
  case forEach.forEach =>
    have hbinder := h .binder
    have hentity := h .entity
    have hconditions := h .conditions
    simp_all [slot?]
  case precondition.precondition =>
    have hlabel := h .label
    have hconditions := h .conditions
    have hmessage := h .onFailure
    simp_all [slot?]
  case call.call c c' =>
    have hproduct := h .product
    have hmethod := h .method
    have hargs := h .args
    obtain ⟨product, method, args⟩ := c
    simp_all [slot?]

/-- **Putting a value into a field** puts it into the slot of that field and into no other. -/
theorem slot?_withField (kind : BlockKind) (field other : BlockField) (value : FieldValue) :
    (kind.withField field value).slot? other =
      if other = field then (kind.slot? field).map (·.put value) else kind.slot? other := by
  cases kind <;> cases value <;> cases field <;> cases other <;> rfl

/-! ## Updates -/

variable {kind : BlockKind} {field other : BlockField} {value v : FieldValue}

theorem slot?_withField_self :
    (kind.withField field value).slot? field = (kind.slot? field).map (·.put value) := by
  rw [slot?_withField, if_pos rfl]

theorem slot?_withField_of_ne (h : other ≠ field) :
    (kind.withField field value).slot? other = kind.slot? other := by
  rw [slot?_withField, if_neg h]

theorem withField_eq_self_iff :
    kind.withField field value = kind ↔ ∀ s, kind.slot? field = some s → s.put value = s := by
  constructor
  · intro h s hs
    have hput : (kind.withField field value).slot? field = (kind.slot? field).map (·.put value) :=
      slot?_withField_self
    rw [h, hs] at hput
    exact (Option.some.inj hput).symm
  · refine fun h => eq_of_slots (tag_withField kind field value) fun other => ?_
    rw [slot?_withField]
    split
    · rename_i hother
      rw [hother]
      rcases hs : kind.slot? field with _ | s
      · rfl
      · rw [Option.map_some, h s hs]
    · rfl

theorem withField_withField : (kind.withField field value).withField field value =
    kind.withField field value := by
  refine withField_eq_self_iff.2 fun s hs => ?_
  rw [slot?_withField_self, Option.map_eq_some_iff] at hs
  obtain ⟨s, -, rfl⟩ := hs
  exact s.put_put value

theorem withField_comm (h : other ≠ field) : (kind.withField field value).withField other v =
    (kind.withField other v).withField field value := by
  refine eq_of_slots (by simp only [tag_withField]) fun f => ?_
  by_cases hf : f = field
  · subst hf
    rw [slot?_withField_of_ne h.symm, slot?_withField_self, slot?_withField_self,
      slot?_withField_of_ne h.symm]
  · rw [slot?_withField_of_ne hf]
    by_cases ho : f = other
    · subst ho
      rw [slot?_withField_self, slot?_withField_self, slot?_withField_of_ne h]
    · rw [slot?_withField_of_ne ho, slot?_withField_of_ne ho, slot?_withField_of_ne hf]

/-- The kind after an update, which may have changed nothing. -/
def updated (kind : BlockKind) (field : BlockField) (value : FieldValue) : BlockKind :=
  (kind.update? field value).getD kind

theorem updated_eq : kind.updated field value = kind.withField field value := by
  rw [updated, update?_eq]
  split
  · rename_i h
    exact h.symm
  · rfl

theorem isSome_update?_iff :
    (kind.update? field value).isSome = true ↔ kind.withField field value ≠ kind := by
  rw [Option.isSome_iff_ne_none, ne_eq, update?_eq_none_iff]

/-- **Updates are exact.** An update answers exactly if the kind it leaves is another one, which is
if the value is another one for the slot of its field. It leaves the tag and every other slot alone,
and puts the value into its own slot if it fits there; where the kind does not have the field or the
value does not fit, nothing changes. Repeating an update changes nothing. Blank text is the same as
no text for a slot that may be empty. The order of two updates of different fields makes no
difference. -/
theorem update_exact (kind : BlockKind) (field : BlockField) (value : FieldValue) :
    ((kind.update? field value).isSome = true ↔ kind.updated field value ≠ kind) ∧
      ((kind.update? field value).isSome = true ↔
        ∃ s, kind.slot? field = some s ∧ s.put value ≠ s) ∧
      (kind.updated field value).tag = kind.tag ∧
      (∀ other ≠ field, (kind.updated field value).slot? other = kind.slot? other) ∧
      (kind.updated field value).slot? field = (kind.slot? field).map (·.put value) ∧
      ((∀ s, kind.slot? field = some s → ¬ s.Fits value) → kind.updated field value = kind) ∧
      (kind.updated field value).update? field value = none ∧
      (∀ held, kind.slot? field = some (.optional held) → ∀ t : String,
        ((kind.updated field (.text t)).slot? field =
          some (.optional (if Text.Blanks t.toList then none else some t))) ∧
        (Text.Blanks t.toList → (kind.update? field (.text t) = none ↔ held = none))) ∧
      ∀ other ≠ field, ∀ v, (kind.updated field value).updated other v =
        (kind.updated other v).updated field value := by
  simp only [updated_eq, update?_eq_none_iff, isSome_update?_iff]
  refine ⟨trivial, ?_, tag_withField kind field value, fun other h => slot?_withField_of_ne h,
    slot?_withField_self, fun h => ?_, withField_withField, fun held hheld t => ⟨?_, fun ht => ?_⟩,
    fun other h v => withField_comm h⟩
  · rw [ne_eq, withField_eq_self_iff]
    push Not
    rfl
  · exact withField_eq_self_iff.2 fun s hs => Slot.put_of_not_fits (h s hs)
  · rw [slot?_withField_self, hheld, Option.map_some, Slot.put]
    split
    · rename_i ht
      rw [unlessBlank_eq_none_iff.2 ht]
    · rename_i ht
      rw [unlessBlank_of_not_blanks ht]
  · rw [withField_eq_self_iff, hheld]
    constructor
    · intro h
      have hput := Slot.optional.inj (h _ rfl)
      rw [← hput, unlessBlank_eq_none_iff.2 ht]
    · rintro rfl s hs
      rw [← Option.some.inj hs, Slot.put, unlessBlank_eq_none_iff.2 ht]

/-- The conditions of a loop and those of a precondition are different slots. -/
example : (forEach "o" "Order" (some "o.open")).updated .conditions (.text " ") =
      .forEach "o" "Order" none ∧
    (precondition "l" "o.open" none).updated .conditions (.text " ") = .precondition "l" " " none ∧
    (call ⟨"p", "m", []⟩).updated .args (.text "a: 1") = .call ⟨"p", "m", []⟩ := by
  decide

end BlockKind

end Blockscript
