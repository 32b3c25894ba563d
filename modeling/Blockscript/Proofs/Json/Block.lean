import Blockscript.Proofs.Json.Levels
import Blockscript.Json.Block

/-!
# Blocks and outlines in other words

The wordings of blocks, their parts and outlines. For each of them three facts: the encoding is a
wording (`wording_toJson`), a wording decodes where the encoding fits (`ofJson_of_wording`), and an
encoding that decodes fits (`depth_le_of_ofJson`). For outlines all three go by induction on the
outline, whose entries take two levels each.
-/

namespace Blockscript

open Json

/-! ## Records under a keyword -/

/-- An object whose one key says what the wording under it is about. -/
def Under (key : String) (ps : List Part) (j : Json) : Prop :=
  ∃ inner, j = .obj [(key, inner)] ∧ Words anything ps inner

theorem Json.Decoder.variant_of_under {α : Type} {ofName? : String → Option (Decoder α)}
    {ms : List Member} {build : Nat → List (Option Json) → Option α} {key : String}
    {ps : List Part} {levels : Nat} {j : Json} {a : α} (h : Under key ps j)
    (hname : ofName? key = some (Decoder.record ms build))
    (hnames : ms.map Member.names = ps.map Part.names) (hapart : Apart (ms.map Member.names))
    (hbuild : ∀ values, List.Forall₂ Part.Holds ps values → build levels values = some a) :
    Decoder.variant ofName? (levels + 2) j = some a := by
  obtain ⟨inner, rfl, hinner⟩ := h
  rw [Decoder.variant, hname, Option.bind_some]
  exact Decoder.record_of_words hinner hnames hapart hbuild

/-! ## Arguments -/

namespace CallArg

/-- The wordings of an argument. -/
def Wording (a : CallArg) : Json → Prop :=
  Words anything [{ names := ["name"], allows := IsText a.name },
    { names := ["value"], allows := IsText a.value }]

theorem wording_toJson (a : CallArg) : a.Wording a.toJson :=
  Part.Written.words (.written List.mem_cons_self rfl (.written List.mem_cons_self rfl .nil))

theorem ofJson_of_wording {a : CallArg} {levels : Nat} {j : Json} (h : a.Wording j) :
    CallArg.ofJson (levels + 1) j = some a := by
  refine Decoder.record_of_words h rfl (by decide) fun values hholds => ?_
  rcases hholds with _ | ⟨hname, _ | ⟨hvalue, ⟨⟩⟩⟩
  simp only [Decoder.required_of_holds hname not_false fun _ => Decoder.string_of_isText,
    Decoder.required_of_holds hvalue not_false fun _ => Decoder.string_of_isText,
    Option.bind_eq_bind, Option.bind_some]

theorem writable_listToJson (args : List CallArg) : (CallArg.listToJson args).writable = true :=
  writable_arr_map (fun _ => rfl) args

theorem list_wording_toJson (args : List CallArg) :
    IsList Wording args (CallArg.listToJson args) :=
  isList_map wording_toJson args

theorem list_ofJson_of_wording {args : List CallArg} {levels : Nat} {j : Json}
    (h : IsList Wording args j) (hdepth : (CallArg.listToJson args).depth ≤ levels) :
    Decoder.list CallArg.ofJson levels j = some args := by
  cases levels with
  | zero => exact absurd hdepth (not_depth_arr_le_zero _)
  | succ levels =>
    refine Decoder.list_of_isList h fun a ha j hj => ?_
    have hlevels := depth_arr_le_iff.1 hdepth _ (List.mem_map_of_mem ha)
    cases levels with
    | zero => exact absurd hlevels (not_depth_obj_le_zero _)
    | succ levels => exact ofJson_of_wording hj

theorem depth_le_of_list {args : List CallArg} {levels : Nat} {b : List CallArg}
    (h : Decoder.list CallArg.ofJson levels (CallArg.listToJson args) = some b) :
    (CallArg.listToJson args).depth ≤ levels := by
  cases levels with
  | zero => cases h
  | succ levels =>
    refine depth_arr_le_iff.2 fun j hj => ?_
    obtain ⟨a, ha, rfl⟩ := List.mem_map.1 hj
    cases levels with
    | zero =>
      -- a first argument is a record, which takes a level
      cases args with
      | nil => cases ha
      | cons a args =>
        rw [CallArg.listToJson, Decoder.list, List.map_cons, List.mapM_cons] at h
        cases h
    | succ levels => exact Nat.succ_le_succ (Nat.zero_le _)

end CallArg

/-! ## Blocks -/

namespace BlockKind

/-- The wordings of what a block says. -/
def Wording : BlockKind → Json → Prop
  | .set target value =>
    Under "SET" [{ names := ["target"], allows := IsText target },
      { names := ["value"], allows := IsText value }]
  | .trigger entity action target =>
    Under "TRIGGER" [{ names := ["entity"], allows := IsText entity },
      { names := ["action"], allows := IsText action },
      { names := ["target"], allows := IsText target }]
  | .forEach binder entity conditions =>
    Under "FOR" [{ names := ["variable"], allows := IsText binder },
      { names := ["entity"], allows := IsText entity },
      { names := ["conditions"], allows := IsNullable IsText conditions,
        spare := conditions = none }]
  | .precondition label conditions onFailure =>
    Under "PRECONDITION" [{ names := ["label"], allows := IsText label },
      { names := ["conditions"], allows := IsText conditions },
      { names := ["on_failure", "onFailure"], allows := IsNullable IsText onFailure,
        spare := onFailure = none }]
  | .call c =>
    Under "CALL" [{ names := ["product"], allows := IsText c.product },
      { names := ["method"], allows := IsText c.method },
      { names := ["args"], allows := IsList CallArg.Wording c.args, spare := c.args = [] }]

theorem wording_toJson (k : BlockKind) : k.Wording k.toJson := by
  cases k with
  | set target value =>
    exact ⟨_, rfl, Part.Written.words
      (.written List.mem_cons_self rfl (.written List.mem_cons_self rfl .nil))⟩
  | trigger entity action target =>
    exact ⟨_, rfl, Part.Written.words (.written List.mem_cons_self rfl
      (.written List.mem_cons_self rfl (.written List.mem_cons_self rfl .nil)))⟩
  | forEach binder entity conditions =>
    exact ⟨_, rfl, Part.Written.words (.written List.mem_cons_self rfl
      (.written List.mem_cons_self rfl
        (.written List.mem_cons_self (isNullable_ofOption isText_str _) .nil)))⟩
  | precondition label conditions onFailure =>
    exact ⟨_, rfl, Part.Written.words (.written List.mem_cons_self rfl
      (.written List.mem_cons_self rfl
        (.written List.mem_cons_self (isNullable_ofOption isText_str _) .nil)))⟩
  | call c =>
    exact ⟨_, rfl, Part.Written.words (.written List.mem_cons_self rfl
      (.written List.mem_cons_self rfl
        (.written List.mem_cons_self (CallArg.list_wording_toJson c.args) .nil)))⟩

theorem writable_toJson (k : BlockKind) : k.toJson.writable = true := by
  cases k <;> simp [toJson, writable, writableMembers, CallArg.writable_listToJson]

/-- What a block says takes two levels at least. -/
theorem two_le_depth_toJson (k : BlockKind) : 2 ≤ k.toJson.depth := by
  cases k <;> simp [toJson, depth, depthMembers]

/-- The arguments of a call nest two levels deeper than the rest. -/
theorem depth_call_le_iff {c : Call} {levels : Nat} :
    (BlockKind.call c).toJson.depth ≤ levels + 2 ↔ (CallArg.listToJson c.args).depth ≤ levels := by
  simp [toJson, depth, depthMembers]

theorem ofJson_of_wording {k : BlockKind} {levels : Nat} {j : Json} (h : k.Wording j)
    (hdepth : k.toJson.depth ≤ levels) : BlockKind.ofJson levels j = some k := by
  have htwo := k.two_le_depth_toJson
  obtain ⟨levels, rfl⟩ : ∃ l, levels = l + 2 := ⟨levels - 2, by omega⟩
  have htext : ∀ s j, IsText s j → Decoder.string levels j = some s :=
    fun _ _ => Decoder.string_of_isText
  have hnullable : ∀ o j, IsNullable IsText o j →
      Decoder.nullable Decoder.string levels j = some o := fun _ _ => Decoder.nullable_of_isText
  cases k with
  | set target value =>
    refine Decoder.variant_of_under h rfl rfl (by decide) fun values hholds => ?_
    rcases hholds with _ | ⟨htarget, _ | ⟨hvalue, ⟨⟩⟩⟩
    simp only [Decoder.required_of_holds htarget not_false (htext _),
      Decoder.required_of_holds hvalue not_false (htext _), Option.bind_eq_bind, Option.bind_some]
  | trigger entity action target =>
    refine Decoder.variant_of_under h rfl rfl (by decide) fun values hholds => ?_
    rcases hholds with _ | ⟨hentity, _ | ⟨haction, _ | ⟨htarget, ⟨⟩⟩⟩⟩
    simp only [Decoder.required_of_holds hentity not_false (htext _),
      Decoder.required_of_holds haction not_false (htext _),
      Decoder.required_of_holds htarget not_false (htext _), Option.bind_eq_bind, Option.bind_some]
  | forEach binder entity conditions =>
    refine Decoder.variant_of_under h rfl rfl (by decide) fun values hholds => ?_
    rcases hholds with _ | ⟨hbinder, _ | ⟨hentity, _ | ⟨hconditions, ⟨⟩⟩⟩⟩
    simp only [Decoder.required_of_holds hbinder not_false (htext _),
      Decoder.required_of_holds hentity not_false (htext _),
      Decoder.orElse_of_holds hconditions Eq.symm (hnullable _), Option.bind_eq_bind,
      Option.bind_some]
  | precondition label conditions onFailure =>
    refine Decoder.variant_of_under h rfl rfl (by decide) fun values hholds => ?_
    rcases hholds with _ | ⟨hlabel, _ | ⟨hconditions, _ | ⟨honFailure, ⟨⟩⟩⟩⟩
    simp only [Decoder.required_of_holds hlabel not_false (htext _),
      Decoder.required_of_holds hconditions not_false (htext _),
      Decoder.orElse_of_holds honFailure Eq.symm (hnullable _), Option.bind_eq_bind,
      Option.bind_some]
  | call c =>
    have hargs := depth_call_le_iff.1 hdepth
    refine Decoder.variant_of_under h rfl rfl (by decide) fun values hholds => ?_
    rcases hholds with _ | ⟨hproduct, _ | ⟨hmethod, _ | ⟨hlist, ⟨⟩⟩⟩⟩
    simp only [Decoder.required_of_holds hproduct not_false (htext _),
      Decoder.required_of_holds hmethod not_false (htext _),
      Decoder.orElse_of_holds hlist Eq.symm fun _ hj => CallArg.list_ofJson_of_wording hj hargs,
      Option.bind_eq_bind, Option.bind_some]

theorem depth_le_of_ofJson {k k' : BlockKind} {levels : Nat}
    (h : BlockKind.ofJson levels k.toJson = some k') : k.toJson.depth ≤ levels := by
  match levels with
  | 0 => cases k <;> cases h
  | 1 => cases k <;> cases h
  | levels + 2 =>
    cases k with
    | call c =>
      have hcall : BlockKind.ofJson (levels + 2) (BlockKind.call c).toJson =
          (Decoder.list CallArg.ofJson levels (CallArg.listToJson c.args)).bind fun args =>
            some (.call { product := c.product, method := c.method, args }) := rfl
      rw [hcall] at h
      obtain ⟨args, hargs, -⟩ := Option.bind_eq_some_iff.1 h
      exact depth_call_le_iff.2 (CallArg.depth_le_of_list hargs)
    | _ => simp [toJson, depth, depthMembers]

end BlockKind

namespace Block

/-- The wordings of a block. -/
def Wording (b : Block) : Json → Prop :=
  Words anything [{ names := ["id"], allows := (· = b.id.toJson) },
    { names := ["kind"], allows := b.kind.Wording }]

theorem wording_toJson (b : Block) : b.Wording b.toJson :=
  Part.Written.words (.written List.mem_cons_self rfl
    (.written List.mem_cons_self b.kind.wording_toJson .nil))

theorem writable_toJson (b : Block) : b.toJson.writable = true := by
  simp [toJson, writable, writableMembers, BlockId.toJson, ofNat, b.kind.writable_toJson]

theorem depth_toJson (b : Block) : b.toJson.depth = b.kind.toJson.depth + 1 := by
  simp [toJson, depth, depthMembers, BlockId.toJson, ofNat]

theorem ofJson_id {id : BlockId} (h : id.val < 2 ^ 64) (levels : Nat) :
    BlockId.ofJson levels id.toJson = some id := by
  have hrange : 0 ≤ (id.val : Int) ∧ (id.val : Int) < 18446744073709551616 := by omega
  simp only [BlockId.ofJson, BlockId.toJson, ofNat, Decoder.natural, if_pos hrange,
    Option.map_some, Int.toNat_natCast]

theorem ofJson_of_wording {b : Block} {levels : Nat} {j : Json} (h : b.Wording j)
    (hid : b.id.val < 2 ^ 64) (hdepth : b.toJson.depth ≤ levels) :
    Block.ofJson levels j = some b := by
  rw [depth_toJson] at hdepth
  obtain ⟨levels, rfl⟩ : ∃ l, levels = l + 1 := ⟨levels - 1, by omega⟩
  refine Decoder.record_of_words h rfl (by decide) fun values hholds => ?_
  rcases hholds with _ | ⟨hidHolds, _ | ⟨hkind, ⟨⟩⟩⟩
  have hread : ∀ j, j = b.id.toJson → BlockId.ofJson levels j = some b.id := by
    rintro _ rfl
    exact ofJson_id hid levels
  simp only [Decoder.required_of_holds hidHolds not_false hread,
    Decoder.required_of_holds hkind not_false fun _ hj =>
      BlockKind.ofJson_of_wording hj (Nat.le_of_succ_le_succ hdepth),
    Option.bind_eq_bind, Option.bind_some]

theorem depth_le_of_ofJson {b b' : Block} {levels : Nat}
    (h : Block.ofJson levels b.toJson = some b') : b.toJson.depth ≤ levels := by
  cases levels with
  | zero => cases h
  | succ levels =>
    have hvalues : memberValues [{ name := "id" }, { name := "kind" }] b.toJson =
        some [some b.id.toJson, some b.kind.toJson] := rfl
    rw [Block.ofJson, Decoder.record, hvalues, Option.bind_some] at h
    obtain ⟨id, -, h⟩ := Option.bind_eq_some_iff.1 h
    obtain ⟨kind, hkind, -⟩ := Option.bind_eq_some_iff.1 h
    rw [depth_toJson]
    exact Nat.succ_le_succ (BlockKind.depth_le_of_ofJson hkind)

end Block

end Blockscript
