import Blockscript.Proofs.Forest.Same
import Blockscript.Proofs.Forest.Moved

/-!
# Versions told apart by identity

A history starts from any forests and grows by edits of any of its versions, the newest or an older
one. Two versions are compared by their dates alone; the dates tell what the forests say
(`history_exact`): an edit gives back the very same version exactly if it changes nothing, it keeps
the node of a block exactly if it leaves that block, its place and the blocks below it alone, and
two versions that share a node agree on it, however far apart they are.
-/

namespace Blockscript

namespace Forest

/-- Whether two forests have the same block under an identifier, at the same place and with the same
blocks below it. -/
structure SameAt (f g : Forest) (id : BlockId) : Prop where
  get?_eq : g.get? id = f.get? id
  place?_eq : g.place? id = f.place? id
  order_eq : g.order (.under id) = f.order (.under id)

variable {f g : Forest} {place : Place} {id : BlockId}

theorem sameAt_iff : f.SameAt g id ↔ g.node? id = f.node? id := by
  constructor
  · rintro ⟨hget, hplace, horder⟩
    rw [get?, get?] at hget
    rw [place?, place?] at hplace
    rw [order, order] at horder
    rcases hf : f.node? id with _ | ⟨b, p, below⟩ <;>
      rcases hg : g.node? id with _ | ⟨b', p', below'⟩ <;> simp_all
  · intro h
    exact ⟨by rw [get?, get?, h], by rw [place?, place?, h], by rw [order, order, h]⟩

/-! ## Nodes that an edit writes -/

theorem mem_owner_iff {place : Option Place} : id ∈ owner place ↔ place = some (.under id) := by
  rcases place with _ | _ | owner'
  · simp [owner]
  · simp [owner]
  · simp [owner, eq_comm]

theorem node?_withOrder (f : Forest) (place : Place) (ids : List BlockId) (id : BlockId) :
    (f.withOrder place ids).node? id = (f.node? id).map (Node.relisted place ids) := by
  have hcomp : (fun n : Node => decide (n.block.id = id)) ∘ Node.relisted place ids =
      fun n : Node => decide (n.block.id = id) :=
    funext fun n => by rw [Function.comp_apply, Node.block_relisted]
  rw [node?, nodes_withOrder, List.find?_map, hcomp]
  rfl

theorem node?_withOrder_of_ne (f : Forest) (h : place ≠ .under id) (ids : List BlockId) :
    (f.withOrder place ids).node? id = f.node? id := by
  rw [node?_withOrder]
  rcases hn : f.node? id with _ | n
  · rfl
  · rw [Option.map_some, Node.relisted_of_ne ids (id_of_node? hn ▸ h)]

theorem order_withOrder_of_contains (h : f.contains id = true) (ids : List BlockId) :
    (f.withOrder (.under id) ids).order (.under id) = ids := by
  obtain ⟨n, hn⟩ := Option.isSome_iff_exists.1 h
  rw [order, node?_withOrder, hn, ← id_of_node? hn, Option.map_some, Node.relisted_under_self]
  rfl

/-- The nodes after an addition, but for the new one. -/
theorem node?_of_add? {b : Block} (h : f.add? place b = some g) (hne : b.id ≠ id) :
    g.node? id = (f.withOrder place (f.order place ++ [b.id])).node? id := by
  obtain ⟨-, -, rfl⟩ := add?_eq_some_iff.1 h
  exact List.find?_cons_of_neg (by simpa using hne)

/-- The nodes after a removal, but for those taken out. -/
theorem node?_of_remove? {gone : BlockId} (h : f.remove? gone = some g)
    (hid : id ∉ f.family gone) : ∃ place, f.place? gone = some place ∧
      g.node? id = (f.withOrder place ((f.order place).filter (· ≠ gone))).node? id := by
  obtain ⟨n, hn, rfl⟩ := Option.map_eq_some_iff.1 h
  refine ⟨n.place, by rw [place?, hn, Option.map_some], ?_⟩
  rw [node?, node?, List.find?_filter]
  congr 1
  funext m
  rw [Bool.eq_iff_iff]
  simp only [decide_eq_true_eq]
  exact ⟨And.right, fun hm => ⟨hm ▸ hid, hm⟩⟩

/-- **What an edit does not write** stays: blocks that are still there have the node they had. -/
theorem node?_of_edit? {e : Edit} (h : f.edit? e = some g) (hid : id ∉ f.written e)
    (hc : g.contains id = true) : g.node? id = f.node? id := by
  cases e with
  | add place b =>
    rw [written, List.mem_cons, mem_owner_iff, not_or] at hid
    rw [node?_of_add? h (Ne.symm hid.1),
      f.node?_withOrder_of_ne fun he => hid.2 (congrArg some he)]
  | update id' field value =>
    obtain ⟨n, kind, -, -, rfl⟩ := update?_eq_some_iff.1 h
    rw [written, List.mem_singleton] at hid
    refine (node?_mapNode f id' id (fun n => { n with block := { n.block with kind } })
      fun _ => rfl).trans ?_
    rcases hn : f.node? id with _ | m
    · rfl
    · rw [Option.map_some, if_neg (id_of_node? hn ▸ hid)]
  | remove gone =>
    obtain ⟨place, hplace, hnode⟩ := node?_of_remove? h ((contains_of_remove?_iff h).1 hc).2
    rw [written, mem_owner_iff, hplace] at hid
    rw [hnode, f.node?_withOrder_of_ne fun he => hid (congrArg some he)]
  | reorder a o =>
    obtain ⟨place, ha, -, -, -, -, rfl⟩ := reorder?_eq_some_iff.1 h
    rw [written, mem_owner_iff, ha] at hid
    exact f.node?_withOrder_of_ne (fun he => hid (congrArg some he)) _

/-- **What an edit writes** is not what it was. -/
theorem Represents.not_sameAt_of_written {o : Outline} (hf : f.Represents o) {e : Edit}
    (h : f.edit? e = some g) (hid : id ∈ f.written e) (hc : f.contains id = true) :
    ¬ f.SameAt g id := by
  intro hsame
  cases e with
  | add place b =>
    have hnew := (add?_eq_some_iff.1 h).1
    have hne : b.id ≠ id := by
      rintro rfl
      rw [hc] at hnew
      cases hnew
    have howner := (List.mem_cons.1 hid).resolve_left hne.symm
    obtain rfl := Option.some.inj (mem_owner_iff.1 howner)
    -- The owner lists one block more.
    have horder := hsame.order_eq
    rw [order, node?_of_add? h hne, ← order, order_withOrder_of_contains hc] at horder
    exact absurd horder (by simp)
  | update id' field value =>
    obtain rfl := List.mem_singleton.1 hid
    exact get?_ne_of_update? h hsame.get?_eq
  | remove gone =>
    have hlisted := hf.mem_order_iff.2 (mem_owner_iff.1 hid)
    have hin : g.contains id = true := by
      rwa [contains_eq_isSome_get?, hsame.get?_eq, ← contains_eq_isSome_get?]
    obtain ⟨place, hplace, hnode⟩ := node?_of_remove? h ((contains_of_remove?_iff h).1 hin).2
    rw [written, mem_owner_iff, hplace] at hid
    obtain rfl := Option.some.inj hid
    -- The owner lists the block no more.
    have horder := hsame.order_eq
    rw [order, hnode, ← order, order_withOrder_of_contains hc] at horder
    rw [← horder] at hlisted
    simp at hlisted
  | reorder a o => exact order_ne_of_reorder? h (mem_owner_iff.1 hid) hsame.order_eq

end Forest

/-! ## Histories -/

/-- A step of a history: a forest from elsewhere, or an edit of the version with that number. -/
inductive HistoryStep where
  | start (origin : Origin)
  | edit (source : ℕ) (e : Edit)
  deriving Repr

namespace Version

/-- The versions after a step; each is dated by its number. There is no edit of a version that is
not there. -/
def grow (vs : List Version) : HistoryStep → List Version
  | .start origin => vs ++ [.initial vs.length origin.forest]
  | .edit source e =>
    match vs[source]? with
    | none => vs
    | some v => vs ++ [v.edit vs.length e]

/-- All versions that steps lead to, the oldest first. -/
def history (steps : List HistoryStep) : List Version := steps.foldl grow []

/-- Whether identity tells exactly what changed from a version to one made of it. -/
structure Tells (v w : Version) : Prop where
  isSame_iff : w.isSame v = true ↔
    w.forest.roots = v.forest.roots ∧ ∀ id, v.forest.SameAt w.forest id
  shares_iff : ∀ id, w.shares v id = true ↔ w.forest.contains id = true ∧
    v.forest.contains id = true ∧ v.forest.SameAt w.forest id

/-- What the dates of a history are good for. -/
structure Dated (vs : List Version) : Prop where
  built : ∀ v ∈ vs, ∃ role, Forest.Built role v.forest
  date_lt : ∀ v ∈ vs, v.date < vs.length
  nodeDate_lt : ∀ v ∈ vs, ∀ id, v.nodeDate id < vs.length
  forest_eq : ∀ v ∈ vs, ∀ w ∈ vs, v.isSame w = true → w.forest = v.forest
  sameAt : ∀ v ∈ vs, ∀ w ∈ vs, ∀ id, v.shares w id = true → v.forest.SameAt w.forest id

variable {vs : List Version} {u v w : Version} {e : Edit} {g : Forest} {id : BlockId}

theorem isSame_iff : v.isSame w = true ↔ v.date = w.date := beq_iff_eq

theorem shares_iff : v.shares w id = true ↔ v.forest.contains id = true ∧
    w.forest.contains id = true ∧ v.nodeDate id = w.nodeDate id := by
  rw [shares, Bool.and_eq_true, Bool.and_eq_true, beq_iff_eq, and_assoc]

theorem edit_of_none (h : v.forest.edit? e = none) (date : ℕ) : v.edit date e = v := by
  rw [edit, h]

theorem edit_of_some (h : v.forest.edit? e = some g) (date : ℕ) : v.edit date e =
    ⟨g, date, fun id => if id ∈ v.forest.written e then date else v.nodeDate id⟩ := by
  rw [edit, h]

theorem forest_edit (v : Version) (date : ℕ) (e : Edit) :
    (v.edit date e).forest = v.forest.edited e := by
  rw [Forest.edited]
  rcases h : v.forest.edit? e with _ | g
  · rw [edit_of_none h, Option.getD_none]
  · rw [edit_of_some h, Option.getD_some]

/-- What an edit has not written is dated as before, and so is the node. -/
theorem node?_of_nodeDate {date : ℕ} (h : v.forest.edit? e = some g)
    (hdate : (v.edit date e).nodeDate id ≠ date) (hc : g.contains id = true) :
    (v.edit date e).nodeDate id = v.nodeDate id ∧ g.node? id = v.forest.node? id := by
  rw [edit_of_some h] at hdate ⊢
  have hid : id ∉ v.forest.written e := fun hid => hdate (if_pos hid)
  exact ⟨if_neg hid, Forest.node?_of_edit? h hid hc⟩

/-! ## One more version -/

/-- A new version that agrees with the others as far as it shares anything with them. -/
theorem Dated.concat (h : Dated vs) (hbuilt : ∃ role, Forest.Built role w.forest)
    (hdate : w.date ≤ vs.length) (hnode : ∀ id, w.nodeDate id ≤ vs.length)
    (hforest : ∀ v ∈ vs, v.isSame w = true → w.forest = v.forest)
    (hsame : ∀ v ∈ vs, ∀ id, v.shares w id = true → v.forest.SameAt w.forest id) :
    Dated (vs ++ [w]) := by
  have hmem : ∀ {p : Version → Prop}, (∀ v ∈ vs, p v) → p w → ∀ v ∈ vs ++ [w], p v := by
    intro p hvs hw v hv
    rcases List.mem_append.1 hv with hv | hv
    · exact hvs v hv
    · exact List.mem_singleton.1 hv ▸ hw
  constructor
  case built => exact hmem h.built hbuilt
  case date_lt =>
    rw [List.length_append, List.length_singleton]
    exact hmem (fun v hv => Nat.lt_succ_of_lt (h.date_lt v hv)) (Nat.lt_succ_of_le hdate)
  case nodeDate_lt =>
    rw [List.length_append, List.length_singleton]
    exact hmem (fun v hv id => Nat.lt_succ_of_lt (h.nodeDate_lt v hv id))
      fun id => Nat.lt_succ_of_le (hnode id)
  case forest_eq =>
    refine hmem (fun v hv => hmem (h.forest_eq v hv) (hforest v hv)) (hmem (fun v hv hs => ?_) ?_)
    · rw [isSame_iff, eq_comm, ← isSame_iff] at hs
      exact (hforest v hv hs).symm
    · exact fun _ => rfl
  case sameAt =>
    refine hmem (fun v hv => hmem (h.sameAt v hv) (hsame v hv)) (hmem (fun v hv id hs => ?_) ?_)
    · rw [shares_iff] at hs
      have hsame' := hsame v hv id (shares_iff.2 ⟨hs.2.1, hs.1, hs.2.2.symm⟩)
      exact Forest.sameAt_iff.2 (Forest.sameAt_iff.1 hsame').symm
    · exact fun id _ => Forest.sameAt_iff.2 rfl

theorem Dated.start (h : Dated vs) (origin : Origin) :
    Dated (vs ++ [.initial vs.length origin.forest]) := by
  refine h.concat ⟨_, origin.built⟩ le_rfl (fun _ => le_rfl) (fun v hv hs => ?_)
    fun v hv id hs => ?_
  · exact absurd (isSame_iff.1 hs) (h.date_lt v hv).ne
  · exact absurd (shares_iff.1 hs).2.2 (h.nodeDate_lt v hv id).ne

theorem Dated.edit (h : Dated vs) (hv : v ∈ vs) (e : Edit) :
    Dated (vs ++ [v.edit vs.length e]) := by
  have hbuilt : ∃ role, Forest.Built role (v.edit vs.length e).forest := by
    rw [forest_edit]
    exact (h.built v hv).imp fun _ hb => hb.edited e
  rcases hg : v.forest.edit? e with _ | g
  · rw [edit_of_none hg] at hbuilt ⊢
    exact h.concat hbuilt (h.date_lt v hv).le (fun id => (h.nodeDate_lt v hv id).le)
      (fun u hu => h.forest_eq u hu v hv) fun u hu => h.sameAt u hu v hv
  · have hedit := edit_of_some hg vs.length
    refine h.concat hbuilt (by rw [hedit]) (fun id => ?_) (fun u hu hs => ?_) fun u hu id hs => ?_
    · rw [hedit]
      dsimp only
      split
      · exact le_rfl
      · exact (h.nodeDate_lt v hv id).le
    · rw [isSame_iff, hedit] at hs
      exact absurd hs (h.date_lt u hu).ne
    · -- What is shared was not written, so it is shared with the source as well.
      obtain ⟨hcu, hcw, hdate⟩ := shares_iff.1 hs
      have hcg : g.contains id = true := by rwa [hedit] at hcw
      obtain ⟨hkept, hnode⟩ := node?_of_nodeDate hg (hdate ▸ (h.nodeDate_lt u hu id).ne) hcg
      have hcv : v.forest.contains id = true := by rwa [Forest.contains, ← hnode]
      have huv := h.sameAt u hu v hv id (shares_iff.2 ⟨hcu, hcv, hdate.trans hkept⟩)
      rw [Forest.sameAt_iff] at huv ⊢
      rw [hedit]
      exact hnode.trans huv

theorem Dated.grow (h : Dated vs) (step : HistoryStep) : Dated (grow vs step) := by
  cases step with
  | start origin => exact h.start origin
  | edit source e =>
    rw [Version.grow]
    rcases hv : vs[source]? with _ | v
    · exact h
    · exact h.edit (List.mem_of_getElem? hv) e

theorem history_concat (steps : List HistoryStep) (step : HistoryStep) :
    history (steps ++ [step]) = grow (history steps) step := by
  rw [history, List.foldl_append]
  rfl

theorem prefix_grow (vs : List Version) (step : HistoryStep) : vs <+: grow vs step := by
  cases step with
  | start origin => exact List.prefix_append _ _
  | edit source e =>
    rw [grow]
    split
    · exact List.prefix_refl _
    · exact List.prefix_append _ _

theorem prefix_history_append (steps more : List HistoryStep) :
    history steps <+: history (steps ++ more) := by
  induction more using List.reverseRecOn with
  | nil => exact (List.append_nil steps).symm ▸ List.prefix_refl _
  | append_singleton more step ih =>
    rw [← List.append_assoc, history_concat]
    exact ih.trans (prefix_grow _ step)

/-- **All histories** are dated. -/
theorem dated_history (steps : List HistoryStep) : Dated (history steps) := by
  induction steps using List.reverseRecOn with
  | nil => constructor <;> exact fun v hv => absurd hv List.not_mem_nil
  | append_singleton steps step ih =>
    rw [history_concat]
    exact ih.grow step

/-! ## What identity tells -/

/-- **An edit** of a dated version is told exactly. -/
theorem Dated.tells (h : Dated vs) (hv : v ∈ vs) (e : Edit) : v.Tells (v.edit vs.length e) := by
  obtain ⟨role, hb⟩ := h.built v hv
  rcases hg : v.forest.edit? e with _ | g
  · rw [edit_of_none hg]
    exact ⟨iff_of_true (isSame_iff.2 rfl) ⟨rfl, fun _ => Forest.sameAt_iff.2 rfl⟩, fun id =>
      shares_iff.trans (and_congr_right fun _ => and_congr_right fun _ =>
        iff_of_true rfl (Forest.sameAt_iff.2 rfl))⟩
  · constructor
    case isSame_iff =>
      rw [isSame_iff, edit_of_some hg]
      refine iff_of_false (h.date_lt v hv).ne' fun ⟨hroots, hsame⟩ => ?_
      exact Forest.not_same_of_edit? hg
        ⟨Forest.role_of_edit? hg, hroots, fun id => Forest.sameAt_iff.1 (hsame id)⟩
    case shares_iff =>
      intro id
      rw [shares_iff, edit_of_some hg]
      refine and_congr_right fun hcg => and_congr_right fun hcv => ?_
      dsimp only
      split
      · rename_i hid
        exact iff_of_false (h.nodeDate_lt v hv id).ne'
          (hb.represents.not_sameAt_of_written hg hid hcv)
      · rename_i hid
        exact iff_of_true rfl (Forest.sameAt_iff.2 (Forest.node?_of_edit? hg hid hcg))

/-- **Change detection by identity.** In any history, in which every version is made from any of
those before it: an edit gives back the very version it came from exactly if all is left as it was,
and keeps the node of a block exactly if the block is there before and after with all that the node
says; two versions that share a node say the same of it; and no version ever changes. -/
theorem history_exact (steps : List HistoryStep) :
    (∀ (source : ℕ) (e : Edit) (v : Version), (history steps)[source]? = some v →
      ∃ w, history (steps ++ [.edit source e]) = history steps ++ [w] ∧
        w.forest = v.forest.edited e ∧ v.Tells w) ∧
      (∀ v ∈ history steps, ∀ w ∈ history steps,
        (v.isSame w = true → w.forest = v.forest) ∧
          ∀ id, v.shares w id = true → v.forest.SameAt w.forest id) ∧
      ∀ more : List HistoryStep, history steps <+: history (steps ++ more) := by
  have h := dated_history steps
  refine ⟨fun source e v hv => ?_, fun v hv w hw => ⟨h.forest_eq v hv w hw, h.sameAt v hv w hw⟩,
    prefix_history_append steps⟩
  refine ⟨v.edit (history steps).length e, ?_, v.forest_edit _ e,
    h.tells (List.mem_of_getElem? hv) e⟩
  rw [history_concat, grow, hv]

/-- Two versions made of one: in the first a block goes into a loop, in the second a block of the
same identifier stands behind it. -/
def branching : List HistoryStep :=
  [.start (.empty .statements), .edit 0 (.add .top ⟨⟨0⟩, .forEach "i" "Order" none⟩),
    .edit 1 (.add (.under ⟨0⟩) ⟨⟨1⟩, .set "a" "1"⟩), .edit 1 (.add .top ⟨⟨1⟩, .set "a" "1"⟩)]

theorem history_exact_branching :
    ∃ v v' w, (history branching)[2]? = some v ∧ (history branching)[3]? = some v' ∧
      history (branching ++ [.edit 2 (.update ⟨1⟩ .value (.text "2"))]) =
        history branching ++ [w] ∧
      w.shares v ⟨0⟩ = true ∧ w.shares v ⟨1⟩ = false ∧ w.isSame v = false ∧
      v'.shares v ⟨1⟩ = false := by
  obtain ⟨hedit, hshared, -⟩ := history_exact branching
  obtain ⟨v, hv⟩ : ∃ v, (history branching)[2]? = some v := ⟨_, rfl⟩
  obtain ⟨v', hv'⟩ : ∃ v, (history branching)[3]? = some v := ⟨_, rfl⟩
  have hf : v.forest = ((history branching)[2]?.map (·.forest)).get (by decide) := by
    simp [hv]
  have hf' : v'.forest = ((history branching)[3]?.map (·.forest)).get (by decide) := by
    simp [hv']
  obtain ⟨w, hw, hforest, htells⟩ := hedit 2 (.update ⟨1⟩ .value (.text "2")) v hv
  rw [hf] at hforest
  refine ⟨v, v', w, hv, hv', hw, (htells.shares_iff ⟨0⟩).2 ⟨?_, ?_, Forest.sameAt_iff.2 ?_⟩, ?_, ?_,
    ?_⟩
  · rw [hforest]; decide +kernel
  · rw [hf]; decide +kernel
  · rw [hforest, hf]; decide +kernel
  · rw [← Bool.not_eq_true, htells.shares_iff]
    rintro ⟨-, -, hsame⟩
    have hnode := Forest.sameAt_iff.1 hsame
    rw [hforest, hf] at hnode
    exact absurd hnode (by decide +kernel)
  · rw [← Bool.not_eq_true, htells.isSame_iff]
    rintro ⟨-, hsame⟩
    have hnode := Forest.sameAt_iff.1 (hsame ⟨1⟩)
    rw [hforest, hf] at hnode
    exact absurd hnode (by decide +kernel)
  · rw [← Bool.not_eq_true]
    intro hs
    have hsame := (hshared v' (List.mem_of_getElem? hv') v (List.mem_of_getElem? hv)).2 ⟨1⟩ hs
    have hnode := Forest.sameAt_iff.1 hsame
    rw [hf, hf'] at hnode
    exact absurd hnode (by decide +kernel)

end Version

end Blockscript
