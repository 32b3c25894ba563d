import Blockscript.Proofs.Json.Definition
import Blockscript.Proofs.Json.Outline
import Blockscript.Json.Snapshot

/-!
# What is encoded decodes

The wordings of snapshots, and the law of all shapes that are stored or sent.

`shapes_decode`: entries of outlines and snapshots decode from their encodings exactly when these
nest at most `maxLevels`, headers and definitions always; and any other wording decodes to the same
value. A definition is kept before it is read, so there the added members have to be such as may be
kept. Both limits are real (`nested_not_decoded`).
-/

namespace Blockscript

open Json

/-! ## Snapshots -/

namespace Snapshot

/-- The wordings of a snapshot. -/
def Wording (n : Snapshot) : Json → Prop :=
  Words anything [{ names := ["mode"], allows := (· = n.mode.toJson) },
    { names := ["meta"], allows := n.header.Wording },
    { names := ["state"], allows := (· = n.status.toJson) },
    { names := ["statements"], allows := n.statements.Wording },
    { names := ["preconditions"], allows := n.preconditions.Wording },
    { names := ["source"], allows := IsNullable IsText n.source, spare := n.source = none }]

theorem wording_toJson (n : Snapshot) : n.Wording n.toJson :=
  Part.Written.words <| .written List.mem_cons_self rfl <|
    .written List.mem_cons_self n.header.wording_toJson <| .written List.mem_cons_self rfl <|
    .written List.mem_cons_self n.statements.wording_toJson <|
    .written List.mem_cons_self n.preconditions.wording_toJson <|
    .written List.mem_cons_self (isNullable_ofOption isText_str _) .nil

theorem writable_toJson (n : Snapshot) : n.toJson.writable = true := by
  simp [toJson, writable, writableMembers, Mode.toJson, SessionStatus.toJson,
    n.header.writable_toJson, n.statements.writable_toJson, n.preconditions.writable_toJson]

/-- A snapshot with levels enough for its header is as deep as its outlines make it. -/
theorem depth_toJson_le_iff {n : Snapshot} {levels : Nat} :
    n.toJson.depth ≤ levels + 4 ↔
      n.statements.toJson.depth ≤ levels + 3 ∧ n.preconditions.toJson.depth ≤ levels + 3 := by
  have hheader : n.header.toJson.depth ≤ levels + 3 := n.header.depth_toJson_le.trans (by omega)
  rw [toJson, depth_obj_le_iff]
  simp [hheader, Mode.toJson, SessionStatus.toJson, depth]

/-- **Every wording of a snapshot decodes to it**, where the encoding fits. -/
theorem ofJson_of_wording {n : Snapshot} {levels : Nat} {j : Json} (h : n.Wording j)
    (hids : ∀ id ∈ n.statements.ids ++ n.preconditions.ids, id.val < 2 ^ 64)
    (hdepth : n.toJson.depth ≤ levels + 4) : Snapshot.ofJson (levels + 4) j = some n := by
  rw [List.forall_mem_append] at hids
  obtain ⟨hstatements, hpreconditions⟩ := depth_toJson_le_iff.1 hdepth
  refine Decoder.record_of_words h rfl (by decide) fun values hholds => ?_
  rcases hholds with _ | ⟨hmode, _ | ⟨hheader, _ | ⟨hstatus, _ | ⟨hfirst, _ | ⟨hsecond,
    _ | ⟨hsource, ⟨⟩⟩⟩⟩⟩⟩⟩
  have hmodeRead : ∀ j, j = n.mode.toJson → Mode.ofJson (levels + 3) j = some n.mode := by
    rintro _ rfl
    cases n.mode <;> rfl
  have hstatusRead : ∀ j, j = n.status.toJson →
      SessionStatus.ofJson (levels + 3) j = some n.status := by
    rintro _ rfl
    cases n.status <;> rfl
  simp only [Decoder.required_of_holds hmode not_false hmodeRead,
    Decoder.required_of_holds hheader not_false fun _ => Header.ofJson_of_wording,
    Decoder.required_of_holds hstatus not_false hstatusRead,
    Decoder.required_of_holds hfirst not_false fun _ hj =>
      Outline.ofJson_of_wording hj hids.1 hstatements,
    Decoder.required_of_holds hsecond not_false fun _ hj =>
      Outline.ofJson_of_wording hj hids.2 hpreconditions,
    Decoder.orElse_of_holds hsource Eq.symm fun _ => Decoder.nullable_of_isText,
    Option.bind_eq_bind, Option.bind_some]

theorem depth_le_of_ofJson {n n' : Snapshot} {levels : Nat}
    (h : Snapshot.ofJson (levels + 4) n.toJson = some n') : n.toJson.depth ≤ levels + 4 := by
  have hvalues : memberValues [{ name := "mode" }, { name := "meta" }, { name := "state" },
      { name := "statements" }, { name := "preconditions" }, { name := "source" }] n.toJson =
      some [some n.mode.toJson, some n.header.toJson, some n.status.toJson,
        some n.statements.toJson, some n.preconditions.toJson, some (ofOption .str n.source)] := rfl
  rw [Snapshot.ofJson, Decoder.record, hvalues, Option.bind_some] at h
  obtain ⟨mode, -, h⟩ := Option.bind_eq_some_iff.1 h
  obtain ⟨header, -, h⟩ := Option.bind_eq_some_iff.1 h
  obtain ⟨status, -, h⟩ := Option.bind_eq_some_iff.1 h
  obtain ⟨statements, hstatements, h⟩ := Option.bind_eq_some_iff.1 h
  obtain ⟨preconditions, hpreconditions, -⟩ := Option.bind_eq_some_iff.1 h
  exact depth_toJson_le_iff.2
    ⟨Outline.depth_le_of_ofJson hstatements, Outline.depth_le_of_ofJson hpreconditions⟩

end Snapshot

/-! ## The law of each shape -/

theorem Outline.decodes_entry {b : Block} {below : Outline}
    (hids : ∀ id ∈ (Outline.cons b below .nil).ids, id.val < 2 ^ 64) :
    Decodes Outline.entryOfJson (Outline.entry b below) (Outline.EntryWording b below)
      (.cons b below .nil) :=
  .of_json (Outline.writable_entry b below) (Outline.wording_entry b below)
    (fun hdepth _ hj => Outline.entryOfJson_of_wording hj hids hdepth)
    fun _ => Outline.depth_le_of_entryOfJson

theorem Snapshot.decodes {n : Snapshot}
    (hids : ∀ id ∈ n.statements.ids ++ n.preconditions.ids, id.val < 2 ^ 64) :
    Decodes Snapshot.ofJson n.toJson n.Wording n :=
  .of_json n.writable_toJson n.wording_toJson
    (fun hdepth _ hj => Snapshot.ofJson_of_wording hj hids hdepth)
    fun _ => Snapshot.depth_le_of_ofJson

theorem Header.fits (h : Header) : h.toJson.depth ≤ maxLevels :=
  h.depth_toJson_le.trans (by decide)

theorem Header.decodes (h : Header) : Decodes Header.ofJson h.toJson h.Wording h :=
  .of_json h.writable_toJson h.wording_toJson (fun _ _ => Header.ofJson_of_wording)
    fun _ _ => h.fits

theorem Definition.fits (d : Definition) : d.toJson.depth ≤ maxLevels :=
  d.depth_toJson_le.trans (by decide)

/-- The wordings whose additions may be kept: the record takes one level and its trigger another. -/
def Definition.KeptWording (d : Definition) : Json → Prop :=
  d.Wording (Kept (maxLevels - 1)) (Kept (maxLevels - 2))

theorem Definition.decodes (d : Definition) :
    Decodes Definition.ofJson d.toJson d.KeptWording d :=
  .of_json d.writable_toJson (d.wording_toJson _ _)
    (fun _ _ hj => (Definition.ofJson_of_wording hj).trans
      (if_pos (Definition.kept_of_wording hj)))
    fun _ _ => d.fits

/-- **The JSON shapes decode what they encode.** An entry of an outline and a snapshot do as far as
their encodings nest at most `maxLevels`, which headers and definitions always do; other wordings
decode to the same value. A definition with any members added decodes exactly when all of it may be
kept. -/
theorem shapes_decode :
    (∀ (b : Block) (below : Outline), (∀ id ∈ (Outline.cons b below .nil).ids, id.val < 2 ^ 64) →
      Decodes Outline.entryOfJson (Outline.entry b below) (Outline.EntryWording b below)
        (.cons b below .nil)) ∧
    (∀ n : Snapshot, (∀ id ∈ n.statements.ids ++ n.preconditions.ids, id.val < 2 ^ 64) →
      Decodes Snapshot.ofJson n.toJson n.Wording n) ∧
    (∀ h : Header, h.toJson.depth ≤ maxLevels ∧ Decodes Header.ofJson h.toJson h.Wording h) ∧
    ∀ d : Definition, d.toJson.depth ≤ maxLevels ∧
      Decodes Definition.ofJson d.toJson d.KeptWording d ∧
      ∀ text j, parse text = some j → d.Wording anything anything j →
        decode Definition.ofJson text = if j.keeps maxLevels then some d else none := by
  refine ⟨fun b below hids => Outline.decodes_entry hids, fun n hids => Snapshot.decodes hids,
    fun h => ⟨h.fits, h.decodes⟩, fun d => ⟨d.fits, d.decodes, fun text j hparse hj => ?_⟩⟩
  rw [decode, hparse, Option.bind_some]
  exact Definition.ofJson_of_wording hj

/-- A precondition written back to front, its message under the second name, among a member that is
no part of the record and without the children; and a snapshot as it is encoded. -/
theorem shapes_decode_reworded :
    decode Outline.entryOfJson (compact (.obj [("block", .obj [("id", .int 7), ("kind",
      .obj [("PRECONDITION", .obj [("x", .real 1 309), ("onFailure", .str "No"),
        ("conditions", .str "a > 1"), ("label", .str "L")])])])])) =
      some (.cons ⟨⟨7⟩, .precondition "L" "a > 1" (some "No")⟩ .nil .nil) ∧
    decode Snapshot.ofJson (compact (Snapshot.toJson ⟨.rule, .blank, .dirty,
      .cons ⟨⟨1⟩, .set "a.b" "1"⟩ .nil .nil, .nil, some "SET a.b = 1;"⟩)) =
      some ⟨.rule, .blank, .dirty, .cons ⟨⟨1⟩, .set "a.b" "1"⟩ .nil .nil, .nil,
        some "SET a.b = 1;"⟩ := by
  constructor
  · refine (shapes_decode.1 ⟨⟨7⟩, .precondition "L" "a > 1" (some "No")⟩ .nil (by decide)).worded
      (by decide) _ _ (parse_compact rfl) ?_
    have hkind : BlockKind.Wording (.precondition "L" "a > 1" (some "No"))
        (.obj [("PRECONDITION", .obj [("x", .real 1 309), ("onFailure", .str "No"),
          ("conditions", .str "a > 1"), ("label", .str "L")])]) :=
      ⟨_, rfl, _, [("label", .str "L"), ("conditions", .str "a > 1"), ("onFailure", .str "No")],
        [("x", .real 1 309)], rfl, List.reverse_perm [("label", Json.str "L"),
          ("conditions", Json.str "a > 1"), ("onFailure", Json.str "No"), ("x", Json.real 1 309)],
        .written (by decide) rfl (.written (by decide) rfl (.written (by decide) rfl .nil)),
        by simp [anything]⟩
    have hblock : Block.Wording ⟨⟨7⟩, .precondition "L" "a > 1" (some "No")⟩ _ :=
      Part.Written.words (.written List.mem_cons_self rfl (.written List.mem_cons_self hkind .nil))
    exact Part.Written.words (.written List.mem_cons_self hblock (.spared rfl .nil))
  · exact (shapes_decode.2.1 _ (by decide)).encoded.trans (if_pos (by decide))

/-! ## Beyond the limits -/

/-- So many times the same block, each the only one below the one before. -/
def Outline.nested (b : Block) : Nat → Outline
  | 0 => .nil
  | n + 1 => .cons b (nested b n) .nil

/-- Every block takes two levels around those below it. -/
theorem Outline.le_depth_entry_nested (b : Block) (n : Nat) :
    2 * n + 4 ≤ (Outline.entry b (Outline.nested b n)).depth := by
  have hblock := b.kind.two_le_depth_toJson
  rw [entry, depth]
  induction n with
  | zero =>
    simp only [depthMembers, Block.depth_toJson, nested]
    omega
  | succ n ih =>
    simp only [nested, toJson_cons, depthMembers, depth, depthItems, entry] at ih ⊢
    omega

/-- A rule without text. -/
def Definition.bareRule : Definition :=
  .rule { name := "R", text := "", priority := 0, trigger := none, active := true }

/-- What a rule without text is written as, with a number out of range added. -/
def Definition.beyondRange : Json :=
  .obj [("kind", .str "rule"), ("name", .str "R"), ("dsl_text", .str ""), ("priority", .int 0),
    ("trigger", .null), ("active", .bool true), ("x", .real 1 309)]

theorem Definition.wording_beyondRange :
    Definition.bareRule.Wording anything anything Definition.beyondRange :=
  ⟨_, [("kind", .str "rule"), ("name", .str "R"), ("dsl_text", .str ""), ("priority", .int 0),
    ("trigger", .null), ("active", .bool true)], [("x", .real 1 309)], rfl, List.Perm.refl _,
    .written List.mem_cons_self rfl (RuleDefinition.written_toMembers anything _),
    by simp [anything, RuleDefinition.parts]⟩

theorem Definition.keeps_beyondRange : Definition.beyondRange.keeps maxLevels = false := by
  have hrange : overflows 1 309 = true := by
    simp [overflows, leadingDigits_of_lt]
  simp [beyondRange, keeps, keepsMembers, hrange]

/-- Sixty-two loops in one another around a last one do not decode, and no more does a definition to
which a number out of range is added. -/
theorem nested_not_decoded :
    decode Outline.entryOfJson (compact (Outline.entry ⟨⟨0⟩, .forEach "i" "Items" none⟩
      (Outline.nested ⟨⟨0⟩, .forEach "i" "Items" none⟩ 62))) = none ∧
    Definition.bareRule.Wording anything anything Definition.beyondRange ∧
    decode Definition.ofJson (compact Definition.beyondRange) = none := by
  refine ⟨?_, Definition.wording_beyondRange, ?_⟩
  · have hdepth := Outline.le_depth_entry_nested ⟨⟨0⟩, .forEach "i" "Items" none⟩ 62
    rw [decode, parse_compact (Outline.writable_entry _ _), Option.bind_some]
    refine Option.eq_none_iff_forall_ne_some.2 fun o ho => ?_
    have hfits := Outline.depth_le_of_entryOfJson ho
    rw [maxLevels] at hfits
    omega
  · have hread : Definition.ofJson maxLevels Definition.beyondRange =
        if Definition.beyondRange.keeps maxLevels then some Definition.bareRule else none :=
      Definition.ofJson_of_wording Definition.wording_beyondRange
    rw [decode, parse_compact rfl, Option.bind_some, hread, Definition.keeps_beyondRange]
    rfl

end Blockscript
