import Blockscript.Binary.Snapshot
import Blockscript.Proofs.Binary.Codec

/-!
# Snapshots lose nothing as bytes

The codecs of all parts of a snapshot return every value, with the one condition that identifiers
are numbers of 64 bits. Outlines are read entry by entry at any depth
(`readEntries_writeEntries`). So the bytes of a snapshot are read back as that snapshot, whatever
follows them (`Snapshot.Storable.ofBytes?_toBytes`).
-/

namespace Blockscript

namespace Binary

open Codec

/-! ## Records -/

theorem returns_mode (m : Mode) : mode.Returns m := by
  cases m <;> exact returns_choice (by decide) rfl

theorem returns_status (st : SessionStatus) : status.Returns st := by
  cases st <;> exact returns_choice (by decide) rfl

theorem returns_callArg (a : CallArg) : callArg.Returns a := by
  apply Returns.via
  · exact (returns_string a.name).pair (returns_string a.value)
  · rfl

theorem length_write_callArg_pos (a : CallArg) : 0 < (callArg.write a).length :=
  length_write_pair_pos (length_write_string_pos a.name)

theorem returns_call (c : Call) : call.Returns c := by
  have hargs : (list callArg).Returns c.args :=
    returns_list (fun a _ => returns_callArg a) fun a _ => length_write_callArg_pos a
  apply Returns.via
  · exact (returns_string c.product).pair ((returns_string c.method).pair hargs)
  · rfl

theorem returns_text? (o : Option String) : (option string).Returns o :=
  returns_option fun s _ => returns_string s

theorem returns_trigger (t : Trigger) : trigger.Returns t := by
  apply Returns.via
  · exact (returns_string t.event).pair ((returns_string t.entity).pair (returns_text? t.property))
  · rfl

theorem returns_parameter (p : Parameter) : parameter.Returns p := by
  apply Returns.via
  · exact (returns_string p.name).pair ((returns_string p.type).pair (returns_bool p.optional))
  · rfl

theorem length_write_parameter_pos (p : Parameter) : 0 < (parameter.write p).length :=
  length_write_pair_pos (length_write_string_pos p.name)

theorem returns_header (h : Header) : header.Returns h := by
  have hpriority : (option word).Returns h.priority := returns_option fun w _ => returns_word w
  have htrigger : (option trigger).Returns h.trigger := returns_option fun t _ => returns_trigger t
  have hparameters : (list parameter).Returns h.parameters :=
    returns_list (fun p _ => returns_parameter p) fun p _ => length_write_parameter_pos p
  apply Returns.via
  · exact (returns_string h.name).pair (hpriority.pair (htrigger.pair
      ((returns_text? h.entityType).pair ((returns_text? h.description).pair hparameters))))
  · rfl

/-! ## Blocks -/

/-- **What a block says** is read back in each of the five kinds. -/
theorem returns_kind (k : BlockKind) : kind.Returns k := by
  intro hcount rest
  cases k with
  | set target value =>
    have h := (returns_string target).pair (returns_string value)
    simp only [kind, bind_read_index (n := 0) (by omega)]
    exact h.map_read hcount.right rest _
  | trigger entity action target =>
    have h := (returns_string entity).pair ((returns_string action).pair (returns_string target))
    simp only [kind, bind_read_index (n := 1) (by omega)]
    exact h.map_read hcount.right rest _
  | forEach binder entity conditions =>
    have h := (returns_string binder).pair ((returns_string entity).pair (returns_text? conditions))
    simp only [kind, bind_read_index (n := 2) (by omega)]
    exact h.map_read hcount.right rest _
  | precondition label conditions onFailure =>
    have h := (returns_string label).pair
      ((returns_string conditions).pair (returns_text? onFailure))
    simp only [kind, bind_read_index (n := 3) (by omega)]
    exact h.map_read hcount.right rest _
  | call c =>
    have h := returns_call c
    simp only [kind, bind_read_index (n := 4) (by omega)]
    exact h.map_read hcount.right rest _

theorem returns_blockId {id : BlockId} (h : id.val < 2 ^ 64) : blockId.Returns id := by
  apply Returns.via
  · exact returns_number h
  · rfl

theorem returns_block {b : Block} (h : b.id.val < 2 ^ 64) : block.Returns b := by
  apply Returns.via
  · exact (returns_blockId h).pair (returns_kind b.kind)
  · rfl

theorem length_write_block_pos (b : Block) : 0 < (block.write b).length :=
  have hid : 0 < (blockId.write b.id).length := length_write_number_pos b.id.val
  length_write_pair_pos hid

/-! ## Outlines -/

theorem entryCount_le_size (o : Outline) : entryCount o ≤ o.size := by
  induction o with
  | nil => exact Nat.le_refl _
  | cons b below next _ ihn =>
    rw [entryCount, Outline.size]
    omega

theorem size_le_length_writeEntries (o : Outline) : o.size ≤ (writeEntries o).length := by
  induction o with
  | nil => exact Nat.le_refl _
  | cons b below next ihb ihn =>
    have hb := length_write_block_pos b
    simp only [writeEntries, List.length_append, Outline.size]
    omega

theorem entryCount_lt {o : Outline} (h : Countable (writeEntries o)) : entryCount o < 2 ^ 64 :=
  Nat.lt_of_le_of_lt ((entryCount_le_size o).trans (size_le_length_writeEntries o)) h

/-- **The entries** of an outline are read back at all depths, if as many reads are allowed as there
are entries. -/
theorem readEntries_writeEntries {o : Outline} {fuel : ℕ} (hfuel : o.size ≤ fuel)
    (hids : ∀ id ∈ o.ids, id.val < 2 ^ 64) (hcount : Countable (writeEntries o))
    (rest : Bytes) : readEntries fuel (entryCount o) (writeEntries o ++ rest) = some (o, rest) := by
  induction o generalizing fuel rest with
  | nil => simp [entryCount, writeEntries, readEntries]
  | cons b below next ihb ihn =>
    rw [Outline.size] at hfuel
    obtain ⟨fuel, rfl⟩ : ∃ left, fuel = left + 1 := ⟨fuel - 1, by omega⟩
    obtain ⟨hb, hids⟩ := List.forall_mem_cons.1 hids
    obtain ⟨hbelow, hnext⟩ := List.forall_mem_append.1 hids
    rw [writeEntries, List.append_assoc, List.append_assoc] at hcount
    have hblock := returns_block hb hcount.left
    have hnumber := read_number (entryCount_lt hcount.right.right.left)
    have hbelow := @ihb fuel (by omega) hbelow hcount.right.right.left
    have hnext := @ihn fuel (by omega) hnext hcount.right.right.right
    rw [entryCount, writeEntries, readEntries]
    simp only [List.append_assoc, hblock, hnumber, hbelow, hnext, Option.bind_some, Option.map_some]

theorem returns_outline {o : Outline} (hids : ∀ id ∈ o.ids, id.val < 2 ^ 64) :
    outline.Returns o := by
  intro hcount rest
  have hcount : Countable (number.write (entryCount o) ++ writeEntries o) := hcount
  have hfuel : o.size ≤ (number.write (entryCount o) ++ (writeEntries o ++ rest)).length := by
    have h := size_le_length_writeEntries o
    simp only [List.length_append]
    omega
  show (number.read (number.write (entryCount o) ++ writeEntries o ++ rest)).bind
    (fun found => readEntries (number.write (entryCount o) ++ writeEntries o ++ rest).length
      found.1 found.2) = _
  rw [List.append_assoc, read_number (entryCount_lt hcount.right), Option.bind_some]
  exact readEntries_writeEntries hfuel hids hcount.right rest

end Binary

/-! ## Snapshots -/

namespace Snapshot

/-- Whether the identifiers in a snapshot and the length of its bytes are numbers of 64 bits. -/
structure Storable (n : Snapshot) : Prop where
  ids : ∀ id ∈ n.statements.ids ++ n.preconditions.ids, id.val < 2 ^ 64
  bytes : Binary.Countable n.toBytes

instance (n : Snapshot) : Decidable n.Storable :=
  decidable_of_iff ((∀ id ∈ n.statements.ids ++ n.preconditions.ids, id.val < 2 ^ 64) ∧
    Binary.Countable n.toBytes) ⟨fun h => ⟨h.1, h.2⟩, fun h => ⟨h.ids, h.bytes⟩⟩

/-- **A snapshot** is read back from its bytes, whatever bytes follow them. -/
theorem Storable.ofBytes?_toBytes {n : Snapshot} (h : n.Storable) (rest : Binary.Bytes) :
    ofBytes? (n.toBytes ++ rest) = some n := by
  have hstatements : Binary.outline.Returns n.statements :=
    Binary.returns_outline fun id hid => h.ids id (List.mem_append_left _ hid)
  have hpreconditions : Binary.outline.Returns n.preconditions :=
    Binary.returns_outline fun id hid => h.ids id (List.mem_append_right _ hid)
  have hn : Binary.snapshot.Returns n := by
    apply Binary.Codec.Returns.via
    · exact (Binary.returns_mode n.mode).pair ((Binary.returns_header n.header).pair
        ((Binary.returns_status n.status).pair (hstatements.pair (hpreconditions.pair
          (Binary.returns_text? n.source)))))
    · rfl
  exact hn.map_read h.bytes rest _

end Snapshot

end Blockscript
