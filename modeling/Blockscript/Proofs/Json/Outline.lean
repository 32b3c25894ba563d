import Blockscript.Proofs.Json.Block

/-!
# Outlines in other words

The wordings of an outline and of a single entry. The three facts about blocks hold for outlines by
induction on the outline: an array takes a level and so does each of its entries, so what is below
an entry has two levels less.
-/

namespace Blockscript

open Json

namespace Outline

/-- A block with the entries below it. -/
def entry (b : Block) (below : Outline) : Json :=
  .obj [("block", b.toJson), ("children", below.toJson)]

theorem toJson_cons (b : Block) (below next : Outline) :
    (cons b below next).toJson = .arr (entry b below :: next.entries) := rfl

/-- The parts of an entry whose children are such as `items` says. -/
def entryParts (b : Block) (below : Outline) (items : List Json → Prop) : List Part :=
  [{ names := ["block"], allows := b.Wording },
    { names := ["children"], allows := fun j => ∃ js, j = .arr js ∧ items js,
      spare := below = .nil }]

/-- The wordings of the entries, one after the other. -/
def Items : Outline → List Json → Prop
  | .nil, items => items = []
  | .cons b below next, items =>
    ∃ j js, items = j :: js ∧ Words anything (entryParts b below below.Items) j ∧ next.Items js

/-- The wordings of an outline. -/
def Wording (o : Outline) (j : Json) : Prop := ∃ items, j = .arr items ∧ o.Items items

/-- The wordings of one entry. -/
def EntryWording (b : Block) (below : Outline) : Json → Prop :=
  Words anything (entryParts b below below.Items)

theorem items_entries (o : Outline) : o.Items o.entries := by
  induction o with
  | nil => rfl
  | cons b below next ihb ihn =>
    refine ⟨entry b below, next.entries, rfl, ?_, ihn⟩
    exact Part.Written.words (.written List.mem_cons_self b.wording_toJson
      (.written List.mem_cons_self ⟨below.entries, rfl, ihb⟩ .nil))

theorem wording_toJson (o : Outline) : o.Wording o.toJson := ⟨o.entries, rfl, o.items_entries⟩

theorem wording_entry (b : Block) (below : Outline) : EntryWording b below (entry b below) :=
  Part.Written.words (.written List.mem_cons_self b.wording_toJson
    (.written List.mem_cons_self below.wording_toJson .nil))

theorem writable_entries (o : Outline) : writableItems o.entries = true := by
  induction o with
  | nil => rfl
  | cons b below next ihb ihn =>
    simp [entries, writableItems, writable, writableMembers, b.writable_toJson, ihb, ihn]

theorem writable_toJson (o : Outline) : o.toJson.writable = true := o.writable_entries

theorem writable_entry (b : Block) (below : Outline) : (entry b below).writable = true := by
  simp [entry, writable, writableMembers, b.writable_toJson, below.writable_toJson]

theorem depth_entry_le_iff {b : Block} {below : Outline} {levels : Nat} :
    (entry b below).depth ≤ levels + 1 ↔ b.toJson.depth ≤ levels ∧ below.toJson.depth ≤ levels := by
  simp [entry, depth_obj_le_iff]

theorem depth_cons_le_iff {b : Block} {below next : Outline} {levels : Nat} :
    (cons b below next).toJson.depth ≤ levels + 2 ↔
      (b.toJson.depth ≤ levels ∧ below.toJson.depth ≤ levels) ∧
        next.toJson.depth ≤ levels + 2 := by
  have hnext : next.toJson = .arr next.entries := rfl
  rw [toJson_cons, hnext, depth_arr_le_iff, depth_arr_le_iff, List.forall_mem_cons,
    depth_entry_le_iff]

/-! ## Reading -/

theorem ofJson_cons (levels : Nat) (j : Json) (js : List Json) :
    ofJson (levels + 2) (.arr (j :: js)) =
      (readEntry (ofJson levels) levels j).bind fun first =>
        (ofJson (levels + 2) (.arr js)).bind fun next => some (.cons first.1 first.2 next) := by
  rw [ofJson, ofJson]
  rfl

/-- An entry is read if its block and what is below it are. -/
theorem readEntry_of_wording {children : Json → Option Outline} {b : Block} {below : Outline}
    {levels : Nat} {j : Json} (h : EntryWording b below j)
    (hblock : ∀ j, b.Wording j → Block.ofJson levels j = some b)
    (hbelow : ∀ j, below.Wording j → children j = some below) :
    readEntry children levels j = some (b, below) := by
  obtain ⟨values, hvalues, hholds⟩ := exists_memberValues h
    (show [{ name := "block" }, { name := "children", optional := true }].map Member.names = _
      from rfl) (by decide)
  rcases hholds with _ | @⟨_, first, _, _, hfirst, _ | @⟨_, second, _, _, hsecond, ⟨⟩⟩⟩
  have hchildren : second.elim (some .nil) children = some below := by
    cases second with
    | none => exact congrArg some (Eq.symm hsecond)
    | some j => exact hbelow j hsecond
  rw [readEntry, hvalues]
  simp only [Decoder.required_of_holds hfirst not_false hblock, hchildren, Option.bind_eq_bind,
    Option.bind_some]

/-- **Every wording of an outline decodes to it**, where the encoding fits. -/
theorem ofJson_of_wording {o : Outline} {levels : Nat} {j : Json} (h : o.Wording j)
    (hids : ∀ id ∈ o.ids, id.val < 2 ^ 64) (hdepth : o.toJson.depth ≤ levels) :
    ofJson levels j = some o := by
  obtain ⟨items, rfl, hitems⟩ := h
  induction o generalizing levels items with
  | nil =>
    cases hitems
    rcases levels with _ | _ | levels
    · exact absurd hdepth (not_depth_arr_le_zero _)
    · rfl
    · rfl
  | cons b below next ihb ihn =>
    obtain ⟨j, js, rfl, hentry, hjs⟩ := hitems
    rw [ids, List.forall_mem_cons, List.forall_mem_append] at hids
    obtain ⟨hid, hidsBelow, hidsNext⟩ := hids
    rcases levels with _ | _ | levels
    · exact absurd hdepth (not_depth_arr_le_zero _)
    · exact absurd (depth_arr_le_iff.1 hdepth _ List.mem_cons_self) (not_depth_obj_le_zero _)
    · obtain ⟨⟨hblock, hbelow⟩, hnext⟩ := depth_cons_le_iff.1 hdepth
      have hread : readEntry (ofJson levels) levels j = some (b, below) :=
        readEntry_of_wording hentry (fun _ hj => Block.ofJson_of_wording hj hid hblock) <| by
          rintro _ ⟨children, rfl, hchildren⟩
          exact ihb hidsBelow hbelow children hchildren
      rw [ofJson_cons, hread, Option.bind_some, ihn hidsNext hnext js hjs, Option.bind_some]

/-- Every wording of an entry decodes to the outline of that entry. -/
theorem entryOfJson_of_wording {b : Block} {below : Outline} {levels : Nat} {j : Json}
    (h : EntryWording b below j) (hids : ∀ id ∈ (cons b below .nil).ids, id.val < 2 ^ 64)
    (hdepth : (entry b below).depth ≤ levels) :
    entryOfJson levels j = some (.cons b below .nil) := by
  rw [ids, ids, List.append_nil, List.forall_mem_cons] at hids
  cases levels with
  | zero => exact absurd hdepth (not_depth_obj_le_zero _)
  | succ levels =>
    obtain ⟨hblock, hbelow⟩ := depth_entry_le_iff.1 hdepth
    rw [entryOfJson, readEntry_of_wording h
      (fun _ hj => Block.ofJson_of_wording hj hids.1 hblock)
      fun _ hj => ofJson_of_wording hj hids.2 hbelow, Option.map_some]

/-! ## What is read nests no deeper -/

theorem depth_le_of_readEntry {children : Json → Option Outline} {b : Block} {below : Outline}
    {levels : Nat} {r : Block × Outline} (h : readEntry children levels (entry b below) = some r) :
    b.toJson.depth ≤ levels ∧ ∃ o, children below.toJson = some o := by
  have hvalues : memberValues [{ name := "block" }, { name := "children", optional := true }]
      (entry b below) = some [some b.toJson, some below.toJson] := rfl
  rw [readEntry, hvalues] at h
  obtain ⟨b', hblock, h⟩ := Option.bind_eq_some_iff.1 h
  obtain ⟨o, hbelow, -⟩ := Option.bind_eq_some_iff.1 h
  exact ⟨Block.depth_le_of_ofJson hblock, o, hbelow⟩

theorem depth_le_of_ofJson {o o' : Outline} {levels : Nat} (h : ofJson levels o.toJson = some o') :
    o.toJson.depth ≤ levels := by
  induction o generalizing levels o' with
  | nil =>
    cases levels with
    | zero => cases h
    | succ levels => exact depth_arr_le_iff.2 nofun
  | cons b below next ihb ihn =>
    match levels with
    | 0 => cases h
    | 1 => cases h
    | levels + 2 =>
      rw [toJson_cons, ofJson_cons] at h
      obtain ⟨first, hfirst, h⟩ := Option.bind_eq_some_iff.1 h
      obtain ⟨rest, hrest, -⟩ := Option.bind_eq_some_iff.1 h
      obtain ⟨hblock, below', hbelow⟩ := depth_le_of_readEntry hfirst
      exact depth_cons_le_iff.2 ⟨⟨hblock, ihb hbelow⟩, ihn hrest⟩

theorem depth_le_of_entryOfJson {b : Block} {below o : Outline} {levels : Nat}
    (h : entryOfJson levels (entry b below) = some o) : (entry b below).depth ≤ levels := by
  cases levels with
  | zero => cases h
  | succ levels =>
    rw [entryOfJson] at h
    obtain ⟨r, hr, -⟩ := Option.map_eq_some_iff.1 h
    obtain ⟨hblock, below', hbelow⟩ := depth_le_of_readEntry hr
    exact depth_entry_le_iff.2 ⟨hblock, depth_le_of_ofJson hbelow⟩

end Outline

end Blockscript
