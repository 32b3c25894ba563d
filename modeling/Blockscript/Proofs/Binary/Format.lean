import Blockscript.Proofs.Binary.Snapshot

/-!
# The format of snapshots

The format says of which `Atom`s a snapshot is made, and in which `Form` each of them is written: a
record is the atoms of its fields in order, a variant those of its index and its fields, a list
those of its length and its elements, and an optional value a flag and, if it is there, its own. The
main statement is that the bytes of a snapshot spell its atoms (`Snapshot.Storable.spelled`).
-/

namespace Blockscript

namespace Binary

open Codec

/-! ## Atoms and their forms -/

/-- What saved values are made of. -/
inductive Atom where
  /-- A length, an identifier or the index of a variant. -/
  | number (n : ℕ)
  | word (w : Int64)
  | flag (b : Bool)
  | text (s : String)
  deriving DecidableEq, Repr

/-- The bytes of a number: one byte, or a marker and the shortest of three lengths that suffices,
the lowest byte first. -/
inductive NumberForm (n : ℕ) : Bytes → Prop
  | byte (h : n ≤ 250) : NumberForm n [UInt8.ofNat n]
  | two {digits : Bytes} (hlow : 250 < n) (hhigh : n < 2 ^ 16) (hlength : digits.length = 2)
    (h : Nat.ofDigits 256 (digits.map (·.toNat)) = n) : NumberForm n (251 :: digits)
  | four {digits : Bytes} (hlow : 2 ^ 16 ≤ n) (hhigh : n < 2 ^ 32) (hlength : digits.length = 4)
    (h : Nat.ofDigits 256 (digits.map (·.toNat)) = n) : NumberForm n (252 :: digits)
  | eight {digits : Bytes} (hlow : 2 ^ 32 ≤ n) (hhigh : n < 2 ^ 64) (hlength : digits.length = 8)
    (h : Nat.ofDigits 256 (digits.map (·.toNat)) = n) : NumberForm n (253 :: digits)

/-- The bytes of an atom. An integer is a number that is even from zero on and odd below; a text
stands behind the number of its bytes. -/
inductive Atom.Form : Atom → Bytes → Prop
  | number {n : ℕ} {bytes : Bytes} (h : NumberForm n bytes) : Form (.number n) bytes
  | word {w : Int64} {n : ℕ} {bytes : Bytes}
    (hn : (n : ℤ) = if 0 ≤ w.toInt then 2 * w.toInt else -2 * w.toInt - 1)
    (h : NumberForm n bytes) : Form (.word w) bytes
  | flag (b : Bool) : Form (.flag b) [if b then 1 else 0]
  | text {s : String} {bytes : Bytes} (h : NumberForm s.utf8ByteSize bytes) :
    Form (.text s) (bytes ++ s.toUTF8.data.toList)

/-- Whether bytes are those of atoms, one after the other. -/
inductive Spelled : List Atom → Bytes → Prop
  | nil : Spelled [] []
  | cons {a : Atom} {as : List Atom} {bytes later : Bytes} (h : a.Form bytes)
    (hlater : Spelled as later) : Spelled (a :: as) (bytes ++ later)

theorem Spelled.append {as bs : List Atom} {bytes later : Bytes} (h : Spelled as bytes)
    (hlater : Spelled bs later) : Spelled (as ++ bs) (bytes ++ later) := by
  induction h with
  | nil => exact hlater
  | cons h _ ih =>
    rw [List.cons_append, List.append_assoc]
    exact .cons h ih

theorem Atom.Form.spelled {a : Atom} {bytes : Bytes} (h : a.Form bytes) : Spelled [a] bytes := by
  have hcons := Spelled.cons h .nil
  rwa [List.append_nil] at hcons

/-! ## What values are made of -/

/-- The atoms of a list. -/
def listAtoms {α : Type} (atoms : α → List Atom) (as : List α) : List Atom :=
  .number as.length :: as.flatMap atoms

/-- The atoms of an optional value. -/
def optionAtoms {α : Type} (atoms : α → List Atom) : Option α → List Atom
  | none => [.flag false]
  | some a => .flag true :: atoms a

/-- The atoms of an optional text. -/
def textAtoms? (o : Option String) : List Atom := optionAtoms (fun s => [.text s]) o

/-- The atoms of a mode: its index. -/
def modeAtoms : Mode → List Atom
  | .rule => [.number 0]
  | .action => [.number 1]

/-- The atoms of a status: its index. -/
def statusAtoms : SessionStatus → List Atom
  | .uninitialized => [.number 0]
  | .synced => [.number 1]
  | .dirty => [.number 2]

/-- The atoms of an argument. -/
def callArgAtoms (a : CallArg) : List Atom := [.text a.name, .text a.value]

/-- The atoms of a call. -/
def callAtoms (c : Call) : List Atom :=
  .text c.product :: .text c.method :: listAtoms callArgAtoms c.args

/-- The atoms of what a block says. -/
def kindAtoms : BlockKind → List Atom
  | .set target value => [.number 0, .text target, .text value]
  | .trigger entity action target => [.number 1, .text entity, .text action, .text target]
  | .forEach binder entity conditions =>
    .number 2 :: .text binder :: .text entity :: textAtoms? conditions
  | .precondition label conditions onFailure =>
    .number 3 :: .text label :: .text conditions :: textAtoms? onFailure
  | .call c => .number 4 :: callAtoms c

/-- The atoms of a block. -/
def blockAtoms (b : Block) : List Atom := .number b.id.val :: kindAtoms b.kind

/-- The atoms of the entries of an outline, each with the number of the entries below it and these
entries. -/
def entryAtoms : Outline → List Atom
  | .nil => []
  | .cons b below next =>
    blockAtoms b ++ .number (entryCount below) :: (entryAtoms below ++ entryAtoms next)

/-- The atoms of an outline. -/
def outlineAtoms (o : Outline) : List Atom := .number (entryCount o) :: entryAtoms o

/-- The atoms of a trigger. -/
def triggerAtoms (t : Trigger) : List Atom :=
  .text t.event :: .text t.entity :: textAtoms? t.property

/-- The atoms of a parameter. -/
def parameterAtoms (p : Parameter) : List Atom := [.text p.name, .text p.type, .flag p.optional]

/-- The atoms of a header. -/
def headerAtoms (h : Header) : List Atom :=
  .text h.name :: (optionAtoms (fun w => [.word w]) h.priority ++
    (optionAtoms triggerAtoms h.trigger ++ (textAtoms? h.entityType ++
      (textAtoms? h.description ++ listAtoms parameterAtoms h.parameters))))

/-- The atoms of a snapshot. -/
def snapshotAtoms (n : Snapshot) : List Atom :=
  modeAtoms n.mode ++ (headerAtoms n.header ++ (statusAtoms n.status ++
    (outlineAtoms n.statements ++ (outlineAtoms n.preconditions ++ textAtoms? n.source))))

/-! ## Shapes -/

theorem numberForm_write {n : ℕ} (h : n < 2 ^ 64) : NumberForm n (writeNumber n) := by
  rw [writeNumber]
  split_ifs with h1 h2 h3
  · exact .byte (by omega)
  · exact .two (by omega) h2 (length_writeLittle 2 n) (ofDigits_writeLittle (by omega))
  · exact .four (by omega) h3 (length_writeLittle 4 n) (ofDigits_writeLittle (by omega))
  · exact .eight (by omega) h (length_writeLittle 8 n) (ofDigits_writeLittle (by omega))

namespace Codec

variable {α β : Type} {c : Codec α} {d : Codec β} {as bs : List Atom} {a : α} {b : β}

/-- Whether what the codec writes for a value spells these atoms. -/
def Spells (c : Codec α) (a : α) (as : List Atom) : Prop :=
  Countable (c.write a) → Spelled as (c.write a)

theorem spelled_number {n : ℕ} (h : n < 2 ^ 64) : Spelled [.number n] (number.write n) :=
  (Atom.Form.number (numberForm_write h)).spelled

theorem spelled_index {n : ℕ} (h : n < 2 ^ 32) : Spelled [.number n] (index.write n) :=
  (Atom.Form.number (numberForm_write (by omega))).spelled

theorem Spells.pair (ha : c.Spells a as) (hb : d.Spells b bs) :
    (c.pair d).Spells (a, b) (as ++ bs) := by
  intro hcount
  exact (ha (Countable.left hcount)).append (hb (Countable.right hcount))

theorem spells_choice {indexOf : α → ℕ} {ofIndex? : ℕ → Option α} (h : indexOf a < 2 ^ 32) :
    (choice indexOf ofIndex?).Spells a [.number (indexOf a)] := fun _ => spelled_index h

theorem spells_bool (b : Bool) : bool.Spells b [.flag b] := by
  intro _
  have hform := (Atom.Form.flag b).spelled
  cases b <;> exact hform

theorem spells_option {atoms : α → List Atom} {o : Option α}
    (h : ∀ a ∈ o, c.Spells a (atoms a)) : c.option.Spells o (optionAtoms atoms o) := by
  intro hcount
  cases o with
  | none => exact (Atom.Form.flag false).spelled
  | some a => exact .cons (.flag true) (h a rfl (Countable.tail hcount))

theorem spelled_flatMap {atoms : α → List Atom} {l : List α} (h : ∀ a ∈ l, c.Spells a (atoms a))
    (hcount : Countable (l.flatMap c.write)) :
    Spelled (l.flatMap atoms) (l.flatMap c.write) := by
  induction l with
  | nil => exact .nil
  | cons a l ih =>
    rw [List.flatMap_cons] at hcount ⊢
    rw [List.flatMap_cons]
    have ha := h a List.mem_cons_self hcount.left
    exact ha.append (ih (fun a ha => h a (List.mem_cons_of_mem _ ha)) hcount.right)

theorem spells_list {atoms : α → List Atom} {l : List α} (h : ∀ a ∈ l, c.Spells a (atoms a))
    (hpos : ∀ a ∈ l, 0 < (c.write a).length) : c.list.Spells l (listAtoms atoms l) := by
  intro hcount
  have hcount : Countable (number.write l.length ++ l.flatMap c.write) := hcount
  have hlength : l.length < 2 ^ 64 :=
    Nat.lt_of_le_of_lt (length_le_length_flatMap hpos) hcount.right
  exact (spelled_number hlength).append (spelled_flatMap h hcount.right)

theorem spells_word (w : Int64) : word.Spells w [.word w] := by
  intro _
  have hlow := w.le_toInt
  have hhigh := w.toInt_lt
  have hlt : (if w.toInt < 0 then 2 * (-w.toInt).toNat - 1 else 2 * w.toInt.toNat) < 2 ^ 64 := by
    split_ifs <;> omega
  have hn : ((if w.toInt < 0 then 2 * (-w.toInt).toNat - 1 else 2 * w.toInt.toNat : ℕ) : ℤ) =
      if 0 ≤ w.toInt then 2 * w.toInt else -2 * w.toInt - 1 := by
    split_ifs <;> omega
  exact (Atom.Form.word hn (numberForm_write hlt)).spelled

theorem spells_string (s : String) : string.Spells s [.text s] := by
  intro hcount
  have hcount : Countable (number.write s.utf8ByteSize ++ s.toUTF8.toList) := hcount
  have hform := (Atom.Form.text (numberForm_write (utf8ByteSize_lt hcount.right))).spelled
  rwa [← toList_bytes] at hform

end Codec

/-! ## Snapshots -/

theorem spells_text? (o : Option String) : (option string).Spells o (textAtoms? o) :=
  spells_option fun s _ => spells_string s

theorem spells_mode (m : Mode) : mode.Spells m (modeAtoms m) := by
  cases m <;> exact spells_choice (by decide)

theorem spells_status (st : SessionStatus) : status.Spells st (statusAtoms st) := by
  cases st <;> exact spells_choice (by decide)

theorem spells_callArg (a : CallArg) : callArg.Spells a (callArgAtoms a) :=
  (spells_string a.name).pair (spells_string a.value)

theorem spells_call (c : Call) : call.Spells c (callAtoms c) :=
  have hargs : (list callArg).Spells c.args (listAtoms callArgAtoms c.args) :=
    spells_list (fun a _ => spells_callArg a) fun a _ => length_write_callArg_pos a
  (spells_string c.product).pair ((spells_string c.method).pair hargs)

theorem spells_kind (k : BlockKind) : kind.Spells k (kindAtoms k) := by
  intro hcount
  cases k with
  | set target value =>
    have h := (spells_string target).pair (spells_string value)
    exact (spelled_index (n := 0) (by omega)).append (h hcount.right)
  | trigger entity action target =>
    have h := (spells_string entity).pair ((spells_string action).pair (spells_string target))
    exact (spelled_index (n := 1) (by omega)).append (h hcount.right)
  | forEach binder entity conditions =>
    have h := (spells_string binder).pair ((spells_string entity).pair (spells_text? conditions))
    exact (spelled_index (n := 2) (by omega)).append (h hcount.right)
  | precondition label conditions onFailure =>
    have h := (spells_string label).pair
      ((spells_string conditions).pair (spells_text? onFailure))
    exact (spelled_index (n := 3) (by omega)).append (h hcount.right)
  | call c => exact (spelled_index (n := 4) (by omega)).append (spells_call c hcount.right)

theorem spells_block {b : Block} (h : b.id.val < 2 ^ 64) : block.Spells b (blockAtoms b) :=
  have hid : blockId.Spells b.id [.number b.id.val] := fun _ => spelled_number h
  hid.pair (spells_kind b.kind)

theorem spells_trigger (t : Trigger) : trigger.Spells t (triggerAtoms t) :=
  (spells_string t.event).pair ((spells_string t.entity).pair (spells_text? t.property))

theorem spells_parameter (p : Parameter) : parameter.Spells p (parameterAtoms p) :=
  (spells_string p.name).pair ((spells_string p.type).pair (spells_bool p.optional))

theorem spells_header (h : Header) : header.Spells h (headerAtoms h) :=
  have hpriority := spells_option (o := h.priority) fun w _ => spells_word w
  have htrigger := spells_option (o := h.trigger) fun t _ => spells_trigger t
  have hparameters : (list parameter).Spells h.parameters (listAtoms parameterAtoms h.parameters) :=
    spells_list (fun p _ => spells_parameter p) fun p _ => length_write_parameter_pos p
  (spells_string h.name).pair (hpriority.pair (htrigger.pair ((spells_text? h.entityType).pair
    ((spells_text? h.description).pair hparameters))))

/-- **The entries** of an outline are spelled at all depths. -/
theorem spelled_entries {o : Outline} (hids : ∀ id ∈ o.ids, id.val < 2 ^ 64)
    (hcount : Countable (writeEntries o)) : Spelled (entryAtoms o) (writeEntries o) := by
  induction o with
  | nil => exact .nil
  | cons b below next ihBelow ihNext =>
    obtain ⟨hb, hids⟩ := List.forall_mem_cons.1 hids
    obtain ⟨hbelow, hnext⟩ := List.forall_mem_append.1 hids
    rw [writeEntries, List.append_assoc, List.append_assoc] at hcount ⊢
    have hblock := spells_block hb hcount.left
    have hnumber := spelled_number (entryCount_lt hcount.right.right.left)
    have hentries := (ihBelow hbelow hcount.right.right.left).append
      (ihNext hnext hcount.right.right.right)
    exact hblock.append (hnumber.append hentries)

theorem spells_outline {o : Outline} (hids : ∀ id ∈ o.ids, id.val < 2 ^ 64) :
    outline.Spells o (outlineAtoms o) := by
  intro hcount
  have hcount : Countable (number.write (entryCount o) ++ writeEntries o) := hcount
  exact (spelled_number (entryCount_lt hcount.right)).append (spelled_entries hids hcount.right)

end Binary

/-- **The bytes of a snapshot** are in the format. -/
theorem Snapshot.Storable.spelled {n : Snapshot} (h : n.Storable) :
    Binary.Spelled (Binary.snapshotAtoms n) n.toBytes := by
  have hstatements : Binary.outline.Spells n.statements (Binary.outlineAtoms n.statements) :=
    Binary.spells_outline fun id hid => h.ids id (List.mem_append_left _ hid)
  have hpreconditions :
      Binary.outline.Spells n.preconditions (Binary.outlineAtoms n.preconditions) :=
    Binary.spells_outline fun id hid => h.ids id (List.mem_append_right _ hid)
  have hparts := (Binary.spells_mode n.mode).pair ((Binary.spells_header n.header).pair
    ((Binary.spells_status n.status).pair (hstatements.pair (hpreconditions.pair
      (Binary.spells_text? n.source)))))
  exact hparts h.bytes

end Blockscript
