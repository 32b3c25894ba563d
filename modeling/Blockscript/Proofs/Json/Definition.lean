import Blockscript.Proofs.Json.Header
import Blockscript.Json.Definition

/-!
# Stored definitions in other words

The wordings of a stored definition: its record with the member `kind` anywhere. All of the record
but the kind is kept before it is read. `Definition.ofJson_of_wording`: so a wording decodes exactly
when it may be kept, whatever is added to it or to the trigger in it. What the record says itself
always may be (`kept_of_isWord` for its one number), so only the additions matter
(`Definition.kept_of_wording`).
-/

namespace Blockscript

open Json

/-! ## Numbers that may be kept -/

namespace Json

theorem roundBinary_le (n : Nat) : roundBinary n ≤ 2 * n := by
  rcases Nat.eq_zero_or_pos n with rfl | hn
  · decide
  have hunit : Nat.pow 2 (n.log2 - 52) ≤ n :=
    (Nat.pow_le_pow_right (by decide) (Nat.sub_le _ _)).trans (Nat.log2_self_le hn.ne')
  have hcount : n / Nat.pow 2 (n.log2 - 52) * Nat.pow 2 (n.log2 - 52) ≤ n := Nat.div_mul_le_self _ _
  simp only [roundBinary]
  split
  · rw [Nat.succ_mul]
    omega
  · omega

/-- Whole numbers below `10 ^ 19` are in range. -/
theorem overflows_eq_false {n : Int} (h : n.natAbs < 10000000000000000000) :
    overflows n 0 = false := by
  have hpower : roundBinary (Nat.pow 10 ((0 : Int) + (0 : Nat)).toNat) = 1 := by decide
  have hlimit : 2 * 10000000000000000000 < rangeLimit := by decide +kernel
  have hround := roundBinary_le n.natAbs
  simp only [overflows, leadingDigits_of_lt h]
  split
  · rfl
  · rw [if_neg (by decide), hpower]
    exact decide_eq_false (by omega)

theorem kept_of_isText {s : String} {levels : Nat} {j : Json} (h : IsText s j) : Kept levels j := by
  rw [h]
  rfl

theorem kept_of_isBool {b : Bool} {levels : Nat} {j : Json} (h : IsBool b j) : Kept levels j := by
  rw [h]
  rfl

theorem kept_of_isWord {w : Int64} {levels : Nat} {j : Json} (h : IsWord w j) : Kept levels j := by
  have hlower := w.le_toInt
  have hupper := w.toInt_lt
  rw [h, Kept, ofWord, keeps, overflows_eq_false (by omega)]
  rfl

theorem kept_of_isNullable {α : Type} {is : α → Json → Prop} {o : Option α} {levels : Nat}
    {j : Json} (h : IsNullable is o j) (his : ∀ a, is a j → Kept levels j) : Kept levels j := by
  cases o with
  | none =>
    rw [show j = .null from h]
    rfl
  | some a => exact his a h

end Json

theorem Trigger.kept_of_wording {t : Trigger} {levels : Nat} {j : Json}
    (h : t.Wording (Kept levels) j) : Kept (levels + 1) j := by
  refine Words.kept h ?_
  simp only [List.forall_mem_cons]
  exact ⟨fun _ => kept_of_isText, fun _ => kept_of_isText,
    fun _ hj => kept_of_isNullable hj fun _ => kept_of_isText, nofun⟩

/-! ## Records -/

namespace RuleDefinition

/-- The parts of the record of a rule, to whose trigger such members are added as `extra` allows. -/
def parts (extra : Json → Prop) (r : RuleDefinition) : List Part :=
  [{ names := ["name"], allows := IsText r.name },
    { names := ["dsl_text", "dslText"], allows := IsText r.text },
    { names := ["priority"], allows := IsWord r.priority },
    { names := ["trigger"], allows := IsNullable (Trigger.Wording extra) r.trigger,
      spare := r.trigger = none },
    { names := ["active"], allows := IsBool r.active, spare := r.active = true }]

theorem written_toMembers (extra : Json → Prop) (r : RuleDefinition) :
    Part.Written (r.parts extra) r.toMembers :=
  .written List.mem_cons_self rfl <| .written List.mem_cons_self rfl <|
    .written List.mem_cons_self rfl <|
    .written List.mem_cons_self (isNullable_ofOption (Trigger.wording_toJson _) _) <|
    .written List.mem_cons_self rfl .nil

theorem kept_of_parts (levels : Nat) (r : RuleDefinition) :
    ∀ p ∈ r.parts (Kept levels), ∀ j, p.allows j → Kept (levels + 1) j := by
  simp only [parts, List.forall_mem_cons]
  exact ⟨fun _ => kept_of_isText, fun _ => kept_of_isText, fun _ => kept_of_isWord,
    fun _ hj => kept_of_isNullable hj fun _ => Trigger.kept_of_wording,
    fun _ => kept_of_isBool, nofun⟩

theorem ofJson_of_words {extra extra' : Json → Prop} {r : RuleDefinition} {levels : Nat} {j : Json}
    (h : Words extra (r.parts extra') j) : RuleDefinition.ofJson (levels + 2) j = some r := by
  refine Decoder.record_of_words h rfl (by decide) fun values hholds => ?_
  rcases hholds with _ | ⟨hname, _ | ⟨htext, _ | ⟨hpriority, _ | ⟨htrigger, _ | ⟨hactive, ⟨⟩⟩⟩⟩⟩⟩
  simp only [Decoder.required_of_holds hname not_false fun _ => Decoder.string_of_isText,
    Decoder.required_of_holds htext not_false fun _ => Decoder.string_of_isText,
    Decoder.required_of_holds hpriority not_false fun _ => Decoder.word_of_isWord,
    Decoder.orElse_of_holds htrigger Eq.symm fun _ => Trigger.nullable_of_wording,
    Decoder.orElse_of_holds hactive Eq.symm fun _ => Decoder.bool_of_isBool,
    Option.bind_eq_bind, Option.bind_some]

end RuleDefinition

namespace ActionDefinition

/-- The parts of the record of an action. -/
def parts (a : ActionDefinition) : List Part :=
  [{ names := ["name"], allows := IsText a.name },
    { names := ["dsl_text", "dslText"], allows := IsText a.text },
    { names := ["entity_type", "entityType"], allows := IsText a.entityType },
    { names := ["description"], allows := IsNullable IsText a.description,
      spare := a.description = none },
    { names := ["active"], allows := IsBool a.active, spare := a.active = true }]

theorem written_toMembers (a : ActionDefinition) : Part.Written a.parts a.toMembers :=
  .written List.mem_cons_self rfl <| .written List.mem_cons_self rfl <|
    .written List.mem_cons_self rfl <|
    .written List.mem_cons_self (isNullable_ofOption isText_str _) <|
    .written List.mem_cons_self rfl .nil

theorem kept_of_parts (levels : Nat) (a : ActionDefinition) :
    ∀ p ∈ a.parts, ∀ j, p.allows j → Kept levels j := by
  simp only [parts, List.forall_mem_cons]
  exact ⟨fun _ => kept_of_isText, fun _ => kept_of_isText, fun _ => kept_of_isText,
    fun _ hj => kept_of_isNullable hj fun _ => kept_of_isText, fun _ => kept_of_isBool, nofun⟩

theorem ofJson_of_words {extra : Json → Prop} {a : ActionDefinition} {levels : Nat} {j : Json}
    (h : Words extra a.parts j) : ActionDefinition.ofJson (levels + 1) j = some a := by
  refine Decoder.record_of_words h rfl (by decide) fun values hholds => ?_
  rcases hholds with _ | ⟨hname, _ | ⟨htext, _ | ⟨hentityType, _ | ⟨hdescription,
    _ | ⟨hactive, ⟨⟩⟩⟩⟩⟩⟩
  simp only [Decoder.required_of_holds hname not_false fun _ => Decoder.string_of_isText,
    Decoder.required_of_holds htext not_false fun _ => Decoder.string_of_isText,
    Decoder.required_of_holds hentityType not_false fun _ => Decoder.string_of_isText,
    Decoder.orElse_of_holds hdescription Eq.symm fun _ => Decoder.nullable_of_isText,
    Decoder.orElse_of_holds hactive Eq.symm fun _ => Decoder.bool_of_isBool,
    Option.bind_eq_bind, Option.bind_some]

end ActionDefinition

/-! ## Definitions -/

namespace Definition

/-- The wordings of a definition to whose record such members are added as `extra` allows, and to
whose trigger such as `inner` does. -/
def Wording (extra inner : Json → Prop) : Definition → Json → Prop
  | .rule r => Words extra ({ names := ["kind"], allows := IsText "rule" } :: r.parts inner)
  | .action a => Words extra ({ names := ["kind"], allows := IsText "action" } :: a.parts)

theorem wording_toJson (extra inner : Json → Prop) (d : Definition) :
    d.Wording extra inner d.toJson := by
  cases d with
  | rule r => exact Part.Written.words (.written List.mem_cons_self rfl (r.written_toMembers inner))
  | action a => exact Part.Written.words (.written List.mem_cons_self rfl a.written_toMembers)

/-- A wording may be kept if what it adds may be; the record takes one level and its trigger
another. -/
theorem kept_of_wording {d : Definition} {levels : Nat} {j : Json}
    (h : d.Wording (Kept (levels + 1)) (Kept levels) j) : Kept (levels + 2) j := by
  cases d with
  | rule r =>
    exact Words.kept h (List.forall_mem_cons.2 ⟨fun _ => kept_of_isText, r.kept_of_parts levels⟩)
  | action a =>
    exact Words.kept h (List.forall_mem_cons.2 ⟨fun _ => kept_of_isText, a.kept_of_parts _⟩)

/-- A definition that may be kept is read by its kind. -/
theorem ofJson_obj {members : List (String × Json)} {kind : String} {levels : Nat}
    (hkind : members.filter (fun kv => kv.1 == "kind") = [("kind", .str kind)]) :
    Definition.ofJson (levels + 1) (.obj members) =
      if keeps (levels + 1) (.obj members) then
        match kind with
        | "rule" =>
          (RuleDefinition.ofJson (levels + 1) (.obj (members.filter fun kv => kv.1 != "kind"))).map
            Definition.rule
        | "action" =>
          (ActionDefinition.ofJson (levels + 1)
            (.obj (members.filter fun kv => kv.1 != "kind"))).map Definition.action
        | _ => none
      else none := by
  have hkept : keeps (levels + 1) (.obj (members.filter fun kv => kv.1 != "kind")) = true ↔
      keeps (levels + 1) (.obj members) = true := kept_filter_iff hkind rfl
  rw [Definition.ofJson, splitKind, hkind]
  exact if_congr hkept rfl rfl

/-- **A wording of a definition decodes to it exactly when it may be kept.** -/
theorem ofJson_of_wording {extra inner : Json → Prop} {d : Definition} {levels : Nat} {j : Json}
    (h : d.Wording extra inner j) :
    Definition.ofJson (levels + 2) j = if j.keeps (levels + 2) then some d else none := by
  cases d with
  | rule r =>
    obtain ⟨members, kind, rfl, hkind, hfilter, hrecord⟩ :=
      Words.split h (by simp [RuleDefinition.parts])
    rw [hkind] at hfilter
    simp only [ofJson_obj hfilter, RuleDefinition.ofJson_of_words hrecord, Option.map_some]
  | action a =>
    obtain ⟨members, kind, rfl, hkind, hfilter, hrecord⟩ :=
      Words.split h (by simp [ActionDefinition.parts])
    rw [hkind] at hfilter
    simp only [ofJson_obj hfilter, ActionDefinition.ofJson_of_words hrecord, Option.map_some]

theorem writable_toJson (d : Definition) : d.toJson.writable = true := by
  cases d with
  | rule r =>
    have htrigger := writable_ofOption Trigger.writable_toJson r.trigger
    simp [toJson, RuleDefinition.toMembers, writable, writableMembers, htrigger, ofWord]
  | action a => simp [toJson, ActionDefinition.toMembers, writable, writableMembers]

/-- A definition nests two levels at most. -/
theorem depth_toJson_le (d : Definition) : d.toJson.depth ≤ 2 := by
  cases d with
  | rule r =>
    have htrigger : (ofOption Trigger.toJson r.trigger).depth ≤ 1 := by
      cases r.trigger with
      | none => exact Nat.zero_le 1
      | some t => exact t.depth_toJson.le
    rw [toJson, RuleDefinition.toMembers, depth_obj_le_iff]
    simp only [List.forall_mem_cons]
    exact ⟨Nat.zero_le _, Nat.zero_le _, Nat.zero_le _, Nat.zero_le _, htrigger, Nat.zero_le _,
      nofun⟩
  | action a =>
    rw [toJson, ActionDefinition.toMembers, depth_obj_le_iff]
    simp [depth]

end Definition

end Blockscript
