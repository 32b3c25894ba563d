import Blockscript.Proofs.Forest.Attach

/-!
# Removal block by block

A removal can also be done with a stack of blocks that are still to go: the top one is taken out,
and the blocks below it are put onto the stack (`Forest.sweep`). What is on the stack and below it
goes, and nothing else, so that a block is swept with its family (`sweep_tops`) and the sweep leaves
the forest of `Forest.remove?` (`Built.remove?_eq_sweep`).
-/

namespace Blockscript.Forest

/-- The forest without the nodes of some blocks. -/
def without (f : Forest) (gone : List BlockId) : Forest :=
  { f with nodes := f.nodes.filter fun m => m.block.id ∉ gone }

theorem without_nil (f : Forest) : f.without [] = f := by simp [without]

theorem without_without (f : Forest) (as bs : List BlockId) :
    (f.without as).without bs = f.without (bs ++ as) := by
  simp [without, List.filter_filter]

theorem without_congr (f : Forest) {as bs : List BlockId} (h : as.Perm bs) :
    f.without as = f.without bs := by
  simp only [without, h.mem_iff]

theorem node?_without (f : Forest) (gone : List BlockId) (id : BlockId) :
    (f.without gone).node? id = if id ∈ gone then none else f.node? id := by
  split
  · rename_i h
    refine List.find?_eq_none.2 fun m hm hid => ?_
    have hgone := (List.mem_filter.1 hm).2
    simp only [decide_eq_true_eq] at hgone hid
    exact hgone (hid ▸ h)
  · rename_i h
    rw [node?, node?, without, List.find?_filter]
    congr 1
    funext m
    rw [Bool.eq_iff_iff]
    simp only [decide_eq_true_eq]
    exact ⟨And.right, fun hm => ⟨fun hgone => h (hm ▸ hgone), hm⟩⟩

theorem size_without_lt {f : Forest} {id : BlockId} {n : Node} (h : f.node? id = some n) :
    (f.without [id]).size < f.size := by
  refine List.length_filter_lt_length_iff_exists.2 ⟨n, List.mem_of_find?_eq_some h, ?_⟩
  simp [id_of_node? h]

/-- The forest after the blocks on a stack, top first, are taken out one by one, each of them
leaving the blocks below it on the stack. -/
def sweep (f : Forest) : List BlockId → Forest
  | [] => f
  | id :: doomed =>
    match _h : f.node? id with
    | none => f.sweep doomed
    | some n => (f.without [id]).sweep (n.below.reverse ++ doomed)
  termination_by doomed => (f.size, doomed.length)
  decreasing_by
  · exact Prod.Lex.right _ (Nat.lt_succ_self _)
  · exact Prod.Lex.left _ _ (size_without_lt ‹_›)

variable {f : Forest} {o : Outline} {place : Place}

theorem sweep_nil (f : Forest) : f.sweep [] = f := by rw [sweep]

theorem sweep_cons {id : BlockId} {n : Node} (h : f.node? id = some n) (doomed : List BlockId) :
    f.sweep (id :: doomed) = (f.without [id]).sweep (n.below.reverse ++ doomed) := by
  rw [sweep]
  split
  · rename_i hn
    rw [hn] at h
    cases h
  · rename_i m hm
    rw [hm] at h
    rw [Option.some.inj h]

theorem Holds.without (h : f.Holds place o) {gone : List BlockId} (hgone : gone.Disjoint o.ids) :
    (f.without gone).Holds place o := by
  intro n hn
  have hid : n.block.id ∈ o.ids := by
    rw [← o.map_id_nodes place]
    exact List.mem_map_of_mem hn
  rw [node?_without, if_neg fun hmem => hgone hmem hid, h n hn]

/-- **The blocks of a level** are swept with all that is below them. -/
theorem sweep_tops (h : f.Holds place o) (hn : o.ids.Nodup) (doomed : List BlockId) :
    f.sweep (o.tops.reverse ++ doomed) = (f.without o.ids).sweep doomed := by
  -- The last block of a level is on top, so that the later entries of an outline go first.
  induction o generalizing f place doomed with
  | nil => rw [Outline.ids, without_nil]; rfl
  | cons b below next ihBelow ihNext =>
    obtain ⟨hb, hbelow, hnext⟩ := holds_cons.1 h
    obtain ⟨⟨hbBelow, hbNext⟩, hnBelow, hnNext, hdisj⟩ := Outline.nodup_cons_iff.1 hn
    have hb' : (f.without next.ids).node? b.id = some ⟨b, place, below.tops⟩ := by
      rw [node?_without, if_neg hbNext, hb]
    have hbelow' : ((f.without next.ids).without [b.id]).Holds (.under b.id) below :=
      (hbelow.without fun _ hmem hid => hdisj hid hmem).without
        (List.singleton_disjoint.2 hbBelow)
    have hids : (below.ids ++ [b.id] ++ next.ids).Perm (Outline.cons b below next).ids := by
      rw [List.append_assoc]
      exact List.perm_middle
    calc f.sweep ((Outline.cons b below next).tops.reverse ++ doomed)
        = f.sweep (next.tops.reverse ++ (b.id :: doomed)) := by
          rw [Outline.tops, List.reverse_cons, List.append_assoc, List.singleton_append]
      _ = (f.without next.ids).sweep (b.id :: doomed) := ihNext hnext hnNext _
      _ = ((f.without next.ids).without [b.id]).sweep (below.tops.reverse ++ doomed) :=
          sweep_cons hb' doomed
      _ = (((f.without next.ids).without [b.id]).without below.ids).sweep doomed :=
          ihBelow hbelow' hnBelow doomed
      _ = (f.without (Outline.cons b below next).ids).sweep doomed := by
          rw [without_without, without_without, without_congr f hids]

/-- A level in another order has the same nodes, since only its owner is written anew. -/
theorem Represents.holds_withOrder {l : Outline} (h : f.Represents o)
    (hl : o.level? place = some l) (ids : List BlockId) :
    (f.withOrder place ids).Holds place l := by
  obtain ⟨rest, hrest, -⟩ := Outline.exists_rest h.nodup hl
  have hnodes := (h.nodes.trans hrest).map (Node.relisted place ids)
  rw [List.map_append, h.map_relisted_level hl, ← nodes_withOrder] at hnodes
  intro n hn
  refine find?_of_nodup ?_ (hnodes.symm.subset (List.mem_append_left _ hn))
  rw [nodes_withOrder, map_id_relisted]
  exact h.perm_ids.nodup_iff.2 h.nodup

/-- **A removal block by block.** In a forest made by any edits, a removal comes to the same as
taking the block off the list that it stands on and sweeping it. -/
theorem Built.remove?_eq_sweep {role : ForestRole} (h : Built role f) (id : BlockId) :
    f.remove? id = (f.node? id).map fun n =>
      (f.withOrder n.place ((f.order n.place).filter (· ≠ id))).sweep [id] := by
  refine Option.map_congr fun n hn => ?_
  have hr := h.represents
  obtain ⟨l, hl, ht⟩ := hr.exists_level_of_node? hn
  have hnl : l.ids.Nodup := hr.nodup.sublist (Outline.ids_sublist_of_level? hl)
  obtain ⟨b, sub, rfl, hsub, hperm⟩ := Outline.exists_entry hnl ht
  have hentry : (Outline.cons b sub .nil).ids = b.id :: sub.ids := by
    rw [Outline.ids, Outline.ids, List.append_nil]
  have hnodup : (Outline.cons b sub .nil).ids.Nodup := by
    rw [hentry]
    exact List.nodup_cons.2 ⟨Outline.not_mem_ids_of_below? hnl hsub,
      hnl.sublist (Outline.ids_sublist_of_below? hsub)⟩
  generalize (f.order n.place).filter (· ≠ b.id) = ids
  have hholds : (f.withOrder n.place ids).Holds n.place (.cons b sub .nil) := fun m hm => by
    rw [Outline.nodes, Outline.nodes, List.append_nil] at hm
    exact hr.holds_withOrder hl ids m
      ((hperm n.place).symm.subset (List.mem_append_left _ hm))
  have hsweep := sweep_tops hholds hnodup []
  rw [sweep_nil, hentry] at hsweep
  rw [hr.family_eq (Outline.below?_of_level? hr.nodup hl hsub)]
  exact hsweep.symm

end Blockscript.Forest
