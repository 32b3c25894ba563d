import Blockscript.Proofs.Json.Text
import Blockscript.Proofs.Json.Wording

/-!
# Levels of JSON

`depth` counts the levels that a value nests. What may be kept may nest only so many, and so may
what a decoder reads: `Decodes` is the law of a shape, that its encoding decodes to the value it
encodes exactly when it nests at most `maxLevels`, and that other wordings of the value decode to it
as well. `Decodes.of_json` reduces the law to JSON values, without texts.
-/

namespace Blockscript.Json

/-! ## Depth -/

mutual

/-- The levels that a value nests. -/
def depth : Json → Nat
  | .arr items => depthItems items + 1
  | .obj members => depthMembers members + 1
  | _ => 0

/-- The greatest `depth` of the items of an array. -/
def depthItems : List Json → Nat
  | [] => 0
  | j :: js => max (depth j) (depthItems js)

/-- The greatest `depth` of the members of an object. -/
def depthMembers : List (String × Json) → Nat
  | [] => 0
  | (_, j) :: js => max (depth j) (depthMembers js)

end

theorem depthItems_le_iff {levels : Nat} : ∀ {items : List Json},
    depthItems items ≤ levels ↔ ∀ j ∈ items, j.depth ≤ levels
  | [] => by simp [depthItems]
  | j :: js => by rw [depthItems, Nat.max_le, depthItems_le_iff, List.forall_mem_cons]

theorem depthMembers_le_iff {levels : Nat} : ∀ {members : List (String × Json)},
    depthMembers members ≤ levels ↔ ∀ kv ∈ members, kv.2.depth ≤ levels
  | [] => by simp [depthMembers]
  | (_, j) :: js => by rw [depthMembers, Nat.max_le, depthMembers_le_iff, List.forall_mem_cons]

theorem depth_arr_le_iff {items : List Json} {levels : Nat} :
    (Json.arr items).depth ≤ levels + 1 ↔ ∀ j ∈ items, j.depth ≤ levels := by
  rw [depth, Nat.add_le_add_iff_right, depthItems_le_iff]

theorem depth_obj_le_iff {members : List (String × Json)} {levels : Nat} :
    (Json.obj members).depth ≤ levels + 1 ↔ ∀ kv ∈ members, kv.2.depth ≤ levels := by
  rw [depth, Nat.add_le_add_iff_right, depthMembers_le_iff]

theorem not_depth_arr_le_zero (items : List Json) : ¬(Json.arr items).depth ≤ 0 := by
  rw [depth]
  omega

theorem not_depth_obj_le_zero (members : List (String × Json)) :
    ¬(Json.obj members).depth ≤ 0 := by
  rw [depth]
  omega

@[simp] theorem depth_ofOption_str (o : Option String) : (ofOption Json.str o).depth = 0 := by
  cases o <;> rfl

/-! ## Values that may be kept -/

/-- The values that may be kept where so many levels are left. -/
def Kept (levels : Nat) (j : Json) : Prop := j.keeps levels = true

theorem keepsMembers_iff {levels : Nat} : ∀ {members : List (String × Json)},
    keepsMembers levels members = true ↔ ∀ kv ∈ members, Kept levels kv.2
  | [] => by simp [keepsMembers]
  | (_, j) :: js => by
    rw [keepsMembers, Bool.and_eq_true, keepsMembers_iff, List.forall_mem_cons, Kept]

/-- A member that may be kept itself does not matter to whether the others may be. -/
theorem kept_filter_iff {members : List (String × Json)} {name : String} {j : Json} {levels : Nat}
    (hfilter : members.filter (fun kv => kv.1 == name) = [(name, j)]) (hj : Kept levels j) :
    Kept (levels + 1) (.obj (members.filter fun kv => kv.1 != name)) ↔
      Kept (levels + 1) (.obj members) := by
  change keepsMembers levels _ = true ↔ keepsMembers levels _ = true
  rw [keepsMembers_iff, keepsMembers_iff]
  refine ⟨fun h kv hkv => ?_, fun h kv hkv => h kv (List.mem_of_mem_filter hkv)⟩
  by_cases hname : kv.1 == name
  · have hmem : kv ∈ members.filter fun kv => kv.1 == name := List.mem_filter.2 ⟨hkv, hname⟩
    rw [hfilter, List.mem_singleton] at hmem
    rwa [hmem]
  · exact h kv (List.mem_filter.2 ⟨hkv, by simpa using hname⟩)

/-- A wording may be kept if what it says and what it adds may be. -/
theorem Words.kept {levels : Nat} {ps : List Part} {j : Json} (h : Words (Kept levels) ps j)
    (hps : ∀ p ∈ ps, ∀ j, p.allows j → Kept levels j) : Kept (levels + 1) j := by
  obtain ⟨members, known, added, rfl, hperm, hknown, hadded⟩ := h
  have hwritten : ∀ kv ∈ known, Kept levels kv.2 := by
    clear hperm hadded
    induction hknown with
    | nil => simp
    | written _ hallows _ ih =>
      rintro kv (_ | ⟨_, hkv⟩)
      · exact hps _ List.mem_cons_self _ hallows
      · exact ih (fun p hp => hps p (List.mem_cons_of_mem _ hp)) kv hkv
    | spared _ _ ih => exact ih fun p hp => hps p (List.mem_cons_of_mem _ hp)
  refine keepsMembers_iff.2 fun kv hkv => ?_
  rcases List.mem_append.1 (hperm.mem_iff.1 hkv) with hkv | hkv
  · exact hwritten kv hkv
  · exact (hadded kv hkv).1

/-! ## The law of a shape -/

/-- The value that a text in JSON stands for. -/
def decode {α : Type} (d : Decoder α) (text : String) : Option α := (parse text).bind (d maxLevels)

/-- **What it is for a shape to decode what it encodes.** The compact text of the encoding decodes
to the value exactly when it nests at most `maxLevels`; and then every text of a wording of the
value, of which the encoding is one, decodes to the value. -/
structure Decodes {α : Type} (d : Decoder α) (encoding : Json) (wording : Json → Prop) (a : α) :
    Prop where
  encoded : decode d (compact encoding) = if encoding.depth ≤ maxLevels then some a else none
  itself : wording encoding
  worded : encoding.depth ≤ maxLevels → ∀ text j, parse text = some j → wording j →
    decode d text = some a

theorem Decodes.of_json {α : Type} {d : Decoder α} {encoding : Json} {wording : Json → Prop} {a : α}
    (hwritable : encoding.writable = true) (hself : wording encoding)
    (hread : encoding.depth ≤ maxLevels → ∀ j, wording j → d maxLevels j = some a)
    (hdeep : ∀ b, d maxLevels encoding = some b → encoding.depth ≤ maxLevels) :
    Decodes d encoding wording a where
  encoded := by
    rw [decode, parse_compact hwritable, Option.bind_some]
    split
    · rename_i hdepth
      exact hread hdepth encoding hself
    · rename_i hdepth
      exact Option.eq_none_iff_forall_ne_some.2 fun b hb => hdepth (hdeep b hb)
  itself := hself
  worded hdepth text j hparse hwording := by
    rw [decode, hparse, Option.bind_some]
    exact hread hdepth j hwording

end Blockscript.Json
