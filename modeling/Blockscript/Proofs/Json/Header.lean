import Blockscript.Proofs.Json.Levels
import Blockscript.Json.Header

/-!
# Headers in other words

The wordings of triggers, parameters and headers. A header nests three levels at most, so it decodes
wherever there are that many (`Header.ofJson_of_wording`).
-/

namespace Blockscript

open Json

/-- The number alone. -/
def IsWord (w : Int64) (j : Json) : Prop := j = ofWord w

theorem isWord_ofWord (w : Int64) : IsWord w (ofWord w) := rfl

/-- The truth value alone. -/
def IsBool (b : Bool) (j : Json) : Prop := j = .bool b

theorem Json.Decoder.word_of_isWord {w : Int64} {levels : Nat} {j : Json} (h : IsWord w j) :
    Decoder.word levels j = some w := by
  rw [h, ofWord, Decoder.word, Text.toWord_toInt]

theorem Json.Decoder.bool_of_isBool {b : Bool} {levels : Nat} {j : Json} (h : IsBool b j) :
    Decoder.bool levels j = some b := by
  rw [h, Decoder.bool]

/-! ## Triggers and parameters -/

namespace Trigger

/-- The wordings of a trigger to which such members are added as `extra` allows. -/
def Wording (extra : Json → Prop) (t : Trigger) : Json → Prop :=
  Words extra [{ names := ["type"], allows := IsText t.event },
    { names := ["entity"], allows := IsText t.entity },
    { names := ["property"], allows := IsNullable IsText t.property, spare := t.property = none }]

theorem wording_toJson (extra : Json → Prop) (t : Trigger) : t.Wording extra t.toJson :=
  Part.Written.words (.written List.mem_cons_self rfl (.written List.mem_cons_self rfl
    (.written List.mem_cons_self (isNullable_ofOption isText_str _) .nil)))

theorem ofJson_of_wording {extra : Json → Prop} {t : Trigger} {levels : Nat} {j : Json}
    (h : t.Wording extra j) : Trigger.ofJson (levels + 1) j = some t := by
  refine Decoder.record_of_words h rfl (by decide) fun values hholds => ?_
  rcases hholds with _ | ⟨hevent, _ | ⟨hentity, _ | ⟨hproperty, ⟨⟩⟩⟩⟩
  simp only [Decoder.required_of_holds hevent not_false fun _ => Decoder.string_of_isText,
    Decoder.required_of_holds hentity not_false fun _ => Decoder.string_of_isText,
    Decoder.orElse_of_holds hproperty Eq.symm fun _ => Decoder.nullable_of_isText,
    Option.bind_eq_bind, Option.bind_some]

/-- A wording of a trigger, or null for none. -/
theorem nullable_of_wording {extra : Json → Prop} {o : Option Trigger} {levels : Nat} {j : Json}
    (h : IsNullable (Wording extra) o j) :
    Decoder.nullable Trigger.ofJson (levels + 1) j = some o := by
  refine Decoder.nullable_of_isNullable h fun t _ ht => ⟨ofJson_of_wording ht, ?_⟩
  obtain ⟨members, -, -, rfl, -⟩ := ht
  nofun

theorem writable_toJson (t : Trigger) : t.toJson.writable = true := by
  simp [toJson, writable, writableMembers]

theorem depth_toJson (t : Trigger) : t.toJson.depth = 1 := by
  simp [toJson, depth, depthMembers]

end Trigger

namespace Parameter

/-- The wordings of a parameter. -/
def Wording (p : Parameter) : Json → Prop :=
  Words anything [{ names := ["name"], allows := IsText p.name },
    { names := ["type"], allows := IsText p.type },
    { names := ["optional"], allows := IsBool p.optional, spare := p.optional = false }]

theorem wording_toJson (p : Parameter) : p.Wording p.toJson :=
  Part.Written.words (.written List.mem_cons_self rfl (.written List.mem_cons_self rfl
    (.written List.mem_cons_self rfl .nil)))

theorem ofJson_of_wording {p : Parameter} {levels : Nat} {j : Json} (h : p.Wording j) :
    Parameter.ofJson (levels + 1) j = some p := by
  refine Decoder.record_of_words h rfl (by decide) fun values hholds => ?_
  rcases hholds with _ | ⟨hname, _ | ⟨htype, _ | ⟨hoptional, ⟨⟩⟩⟩⟩
  simp only [Decoder.required_of_holds hname not_false fun _ => Decoder.string_of_isText,
    Decoder.required_of_holds htype not_false fun _ => Decoder.string_of_isText,
    Decoder.orElse_of_holds hoptional Eq.symm fun _ => Decoder.bool_of_isBool,
    Option.bind_eq_bind, Option.bind_some]

end Parameter

/-! ## Headers -/

namespace Header

/-- The wordings of a header. -/
def Wording (h : Header) : Json → Prop :=
  Words anything [{ names := ["name"], allows := IsText h.name, spare := h.name = "" },
    { names := ["priority"], allows := IsNullable IsWord h.priority, spare := h.priority = none },
    { names := ["trigger"], allows := IsNullable (Trigger.Wording anything) h.trigger,
      spare := h.trigger = none },
    { names := ["entity_type", "entityType"], allows := IsNullable IsText h.entityType,
      spare := h.entityType = none },
    { names := ["description"], allows := IsNullable IsText h.description,
      spare := h.description = none },
    { names := ["parameters"], allows := IsList Parameter.Wording h.parameters,
      spare := h.parameters = [] }]

theorem wording_toJson (h : Header) : h.Wording h.toJson :=
  Part.Written.words <| .written List.mem_cons_self rfl <|
    .written List.mem_cons_self (isNullable_ofOption isWord_ofWord _) <|
    .written List.mem_cons_self (isNullable_ofOption (Trigger.wording_toJson anything) _) <|
    .written List.mem_cons_self (isNullable_ofOption isText_str _) <|
    .written List.mem_cons_self (isNullable_ofOption isText_str _) <|
    .written List.mem_cons_self (isList_map Parameter.wording_toJson _) .nil

/-- **Every wording of a header decodes to it.** -/
theorem ofJson_of_wording {h : Header} {levels : Nat} {j : Json} (hj : h.Wording j) :
    Header.ofJson (levels + 3) j = some h := by
  refine Decoder.record_of_words hj rfl (by decide) fun values hholds => ?_
  rcases hholds with _ | ⟨hname, _ | ⟨hpriority, _ | ⟨htrigger, _ | ⟨hentityType,
    _ | ⟨hdescription, _ | ⟨hparameters, ⟨⟩⟩⟩⟩⟩⟩⟩
  have hword : ∀ j, IsNullable IsWord h.priority j →
      Decoder.nullable Decoder.word (levels + 2) j = some h.priority := fun j hpriority =>
    Decoder.nullable_of_isNullable hpriority fun w _ hw =>
      ⟨Decoder.word_of_isWord hw, by rw [hw]; nofun⟩
  have hlist : ∀ j, IsList Parameter.Wording h.parameters j →
      Decoder.list Parameter.ofJson (levels + 2) j = some h.parameters := fun j hparameters =>
    Decoder.list_of_isList hparameters fun p _ _ hp => Parameter.ofJson_of_wording hp
  simp only [Decoder.orElse_of_holds hname Eq.symm fun _ => Decoder.string_of_isText,
    Decoder.orElse_of_holds hpriority Eq.symm hword,
    Decoder.orElse_of_holds htrigger Eq.symm fun _ => Trigger.nullable_of_wording,
    Decoder.orElse_of_holds hentityType Eq.symm fun _ => Decoder.nullable_of_isText,
    Decoder.orElse_of_holds hdescription Eq.symm fun _ => Decoder.nullable_of_isText,
    Decoder.orElse_of_holds hparameters Eq.symm hlist, Option.bind_eq_bind, Option.bind_some]

theorem writable_toJson (h : Header) : h.toJson.writable = true := by
  have hpriority := writable_ofOption (fun _ => rfl : ∀ w, (ofWord w).writable = true) h.priority
  have htrigger := writable_ofOption Trigger.writable_toJson h.trigger
  have hparameters := writable_arr_map (fun _ => rfl : ∀ p : Parameter, p.toJson.writable = true)
    h.parameters
  simpa [toJson, writable, writableMembers, hpriority, htrigger] using hparameters

/-- A header nests three levels at most. -/
theorem depth_toJson_le (h : Header) : h.toJson.depth ≤ 3 := by
  have hpriority : (ofOption ofWord h.priority).depth = 0 := by cases h.priority <;> rfl
  have htrigger : (ofOption Trigger.toJson h.trigger).depth ≤ 1 := by
    cases h.trigger with
    | none => exact Nat.zero_le 1
    | some t => exact t.depth_toJson.le
  have hparameters : (Json.arr (h.parameters.map Parameter.toJson)).depth ≤ 2 := by
    refine depth_arr_le_iff.2 fun j hj => ?_
    obtain ⟨p, -, rfl⟩ := List.mem_map.1 hj
    exact le_rfl
  rw [toJson, depth_obj_le_iff]
  simp only [List.forall_mem_cons, hpriority, depth_ofOption_str]
  exact ⟨Nat.zero_le _, Nat.zero_le _, htrigger.trans (by decide), Nat.zero_le _, Nat.zero_le _,
    hparameters, nofun⟩

end Header

end Blockscript
