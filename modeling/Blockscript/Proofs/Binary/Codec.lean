import Blockscript.Binary.Codec
import Mathlib

/-!
# Reading what was written

A codec `Returns` a value if it reads it back from the front of what it writes for it, whatever
bytes follow, as long as the written bytes can be counted by a number of 64 bits. Numbers are
returned in each of their four lengths (`readNumber_writeNumber`), and every shape of codec returns
what its parts return, so that a codec put together from the shapes needs no argument of its own.
-/

namespace Blockscript.Binary

/-- Whether the length of the bytes is a number of 64 bits. -/
def Countable (bytes : Bytes) : Prop := bytes.length < 2 ^ 64

instance : DecidablePred Countable := fun bytes =>
  inferInstanceAs (Decidable (bytes.length < 2 ^ 64))

theorem Countable.left {bytes later : Bytes} (h : Countable (bytes ++ later)) :
    Countable bytes := by
  simp only [Countable, List.length_append] at h ⊢
  omega

theorem Countable.right {bytes later : Bytes} (h : Countable (bytes ++ later)) :
    Countable later := by
  simp only [Countable, List.length_append] at h ⊢
  omega

theorem Countable.tail {b : UInt8} {bytes : Bytes} (h : Countable (b :: bytes)) :
    Countable bytes := by
  simp only [Countable, List.length_cons] at h ⊢
  omega

namespace Codec

variable {α β : Type}

/-- Whether the codec reads a value back from what it writes for it. -/
def Returns (c : Codec α) (a : α) : Prop :=
  Countable (c.write a) → ∀ rest, c.read (c.write a ++ rest) = some (a, rest)

/-! ## Numbers -/

theorem length_writeLittle (count n : ℕ) : (writeLittle count n).length = count := by
  induction count generalizing n with
  | zero => rfl
  | succ count ih => rw [writeLittle, List.length_cons, ih]

/-- The bytes of a number are its digits, the lowest first. -/
theorem ofDigits_writeLittle {count n : ℕ} (h : n < 256 ^ count) :
    Nat.ofDigits 256 ((writeLittle count n).map (·.toNat)) = n := by
  induction count generalizing n with
  | zero =>
    obtain rfl : n = 0 := by simpa using h
    rfl
  | succ count ih =>
    have hhigh : n / 256 < 256 ^ count := by
      rw [Nat.div_lt_iff_lt_mul (by omega)]
      rwa [Nat.pow_succ] at h
    have hlow : (UInt8.ofNat n).toNat = n % 256 := UInt8.toNat_ofNat'
    rw [writeLittle, List.map_cons, Nat.ofDigits_cons, ih hhigh, hlow]
    exact Nat.mod_add_div n 256

/-- Reading digits gives the number that they are those of. -/
theorem readLittle_append (digits rest : Bytes) : readLittle digits.length (digits ++ rest) =
    some (Nat.ofDigits 256 (digits.map (·.toNat)), rest) := by
  induction digits with
  | nil => rfl
  | cons b digits ih =>
    rw [List.length_cons, List.cons_append, readLittle, ih, Option.map_some, List.map_cons,
      Nat.ofDigits_cons]

theorem readLittle_writeLittle {count n : ℕ} (h : n < 256 ^ count) (rest : Bytes) :
    readLittle count (writeLittle count n ++ rest) = some (n, rest) := by
  have hread := readLittle_append (writeLittle count n) rest
  rwa [length_writeLittle, ofDigits_writeLittle h] at hread

/-- **A number** is read back by a reader that is wide enough for it. -/
theorem readNumber_writeNumber {width n : ℕ} (hwidth : 4 ≤ width)
    (h : n < 2 ^ 32 ∨ 8 ≤ width ∧ n < 2 ^ 64) (rest : Bytes) :
    readNumber width (writeNumber n ++ rest) = some (n, rest) := by
  have h16 : n < 65536 → n < 256 ^ 2 := fun hn => by omega
  have h32 : n < 4294967296 → n < 256 ^ 4 := fun hn => by omega
  have h64 : n < 2 ^ 64 → n < 256 ^ 8 := fun hn => by omega
  rw [writeNumber]
  split_ifs with h1 h2 h3
  · have hbyte : (UInt8.ofNat n).toNat = n := UInt8.toNat_ofNat_of_lt' (by
      simp only [UInt8.size]; omega)
    simp [readNumber, hbyte, h1]
  · have hw : 2 ≤ width := by omega
    simpa [readNumber, hw] using readLittle_writeLittle (h16 h2) rest
  · simpa [readNumber, hwidth] using readLittle_writeLittle (h32 h3) rest
  · obtain ⟨hw, hn⟩ : 8 ≤ width ∧ n < 2 ^ 64 := by omega
    simpa [readNumber, hw] using readLittle_writeLittle (h64 hn) rest

theorem read_number {n : ℕ} (h : n < 2 ^ 64) (rest : Bytes) :
    number.read (number.write n ++ rest) = some (n, rest) :=
  readNumber_writeNumber (by omega) (.inr ⟨by omega, h⟩) rest

theorem read_index {n : ℕ} (h : n < 2 ^ 32) (rest : Bytes) :
    index.read (index.write n ++ rest) = some (n, rest) :=
  readNumber_writeNumber (by omega) (.inl h) rest

/-- A number takes a byte at least. -/
theorem length_write_number_pos (n : ℕ) : 0 < (number.write n).length := by
  show 0 < (writeNumber n).length
  rw [writeNumber]
  split_ifs <;> exact Nat.succ_pos _

theorem returns_number {n : ℕ} (h : n < 2 ^ 64) : number.Returns n := fun _ => read_number h

theorem returns_index {n : ℕ} (h : n < 2 ^ 32) : index.Returns n := fun _ => read_index h

theorem bind_read_index {n : ℕ} (h : n < 2 ^ 32) (bytes rest : Bytes)
    (next : ℕ × Bytes → Option (β × Bytes)) :
    (index.read (index.write n ++ bytes ++ rest)).bind next = next (n, bytes ++ rest) := by
  rw [List.append_assoc, read_index h, Option.bind_some]

/-! ## Shapes -/

theorem Returns.map_read {c : Codec α} {a : α} (h : c.Returns a) (hcount : Countable (c.write a))
    (rest : Bytes) (next : α × Bytes → β) :
    (c.read (c.write a ++ rest)).map next = some (next (a, rest)) := by
  rw [h hcount rest, Option.map_some]

theorem Returns.via {c : Codec α} {encode : β → α} {decode : α → Option β} {b : β}
    (h : c.Returns (encode b)) (hdecode : decode (encode b) = some b) :
    (c.via encode decode).Returns b := by
  intro hcount rest
  show (c.read (c.write (encode b) ++ rest)).bind _ = _
  rw [h hcount rest, Option.bind_some]
  show (decode (encode b)).map (·, rest) = _
  rw [hdecode, Option.map_some]

theorem Returns.pair {c : Codec α} {d : Codec β} {a : α} {b : β} (ha : c.Returns a)
    (hb : d.Returns b) : (c.pair d).Returns (a, b) := by
  intro hcount rest
  have hcount : Countable (c.write a ++ d.write b) := hcount
  show (c.read (c.write a ++ d.write b ++ rest)).bind _ = _
  rw [List.append_assoc, ha hcount.left, Option.bind_some]
  show (d.read (d.write b ++ rest)).map _ = _
  rw [hb hcount.right, Option.map_some]

/-- A pair takes the bytes of its first part at least. -/
theorem length_write_pair_pos {c : Codec α} {d : Codec β} {a : α} {b : β}
    (h : 0 < (c.write a).length) : 0 < ((c.pair d).write (a, b)).length := by
  show 0 < (c.write a ++ d.write b).length
  rw [List.length_append]
  omega

theorem returns_choice {indexOf : α → ℕ} {ofIndex? : ℕ → Option α} {a : α}
    (hlt : indexOf a < 2 ^ 32) (h : ofIndex? (indexOf a) = some a) :
    (choice indexOf ofIndex?).Returns a := (returns_index hlt).via h

theorem returns_bool (b : Bool) : bool.Returns b := by
  intro _ rest
  cases b <;> rfl

theorem returns_option {c : Codec α} {o : Option α} (h : ∀ a ∈ o, c.Returns a) :
    c.option.Returns o := by
  intro hcount rest
  cases o with
  | none => rfl
  | some a =>
    have hcount : Countable (1 :: c.write a) := hcount
    show (c.read (c.write a ++ rest)).map _ = _
    rw [h a rfl hcount.tail, Option.map_some]

theorem readMany_flatMap {c : Codec α} {as : List α} (h : ∀ a ∈ as, c.Returns a)
    (hcount : Countable (as.flatMap c.write)) (rest : Bytes) :
    c.readMany as.length (as.flatMap c.write ++ rest) = some (as, rest) := by
  induction as with
  | nil => rfl
  | cons a as ih =>
    rw [List.flatMap_cons] at hcount
    have ha := h a List.mem_cons_self hcount.left
    have has := ih (fun a ha => h a (List.mem_cons_of_mem _ ha)) hcount.right
    rw [List.flatMap_cons, List.append_assoc, List.length_cons, readMany, ha, Option.bind_some]
    show (c.readMany as.length (as.flatMap c.write ++ rest)).map _ = _
    rw [has, Option.map_some]

theorem length_le_length_flatMap {c : Codec α} {as : List α}
    (h : ∀ a ∈ as, 0 < (c.write a).length) : as.length ≤ (as.flatMap c.write).length := by
  induction as with
  | nil => exact Nat.le_refl _
  | cons a as ih =>
    have ha := h a List.mem_cons_self
    have has := ih fun a ha => h a (List.mem_cons_of_mem _ ha)
    rw [List.flatMap_cons, List.length_append, List.length_cons]
    omega

/-- **A list** is read back if its elements are and take a byte each at least. -/
theorem returns_list {c : Codec α} {as : List α} (h : ∀ a ∈ as, c.Returns a)
    (hpos : ∀ a ∈ as, 0 < (c.write a).length) : c.list.Returns as := by
  intro hcount rest
  have hcount : Countable (number.write as.length ++ as.flatMap c.write) := hcount
  -- The length is written as a number, so it has to be one of 64 bits, as the bytes are.
  have hlength : as.length < 2 ^ 64 :=
    Nat.lt_of_le_of_lt (length_le_length_flatMap hpos) hcount.right
  show (number.read (number.write as.length ++ as.flatMap c.write ++ rest)).bind _ = _
  rw [List.append_assoc, read_number hlength, Option.bind_some]
  exact readMany_flatMap h hcount.right rest

/-! ## Integers -/

/-- **An integer** of 64 bits is read back, below zero too. -/
theorem returns_word (w : Int64) : word.Returns w := by
  have hlow := w.le_toInt
  have hhigh := w.toInt_lt
  by_cases hneg : w.toInt < 0
  · have hlt : 2 * (-w.toInt).toNat - 1 < 2 ^ 64 := by omega
    refine Returns.via (by rw [if_pos hneg]; exact returns_number hlt) ?_
    have hodd : ¬(2 * (-w.toInt).toNat - 1) % 2 = 0 := by omega
    have hback : -(((2 * (-w.toInt).toNat - 1) / 2 : ℕ) : ℤ) - 1 = w.toInt := by omega
    rw [if_pos hneg, if_neg hodd, hback, Int64.ofInt_toInt]
  · have hlt : 2 * w.toInt.toNat < 2 ^ 64 := by omega
    refine Returns.via (by rw [if_neg hneg]; exact returns_number hlt) ?_
    have heven : 2 * w.toInt.toNat % 2 = 0 := by omega
    have hback : ((2 * w.toInt.toNat / 2 : ℕ) : ℤ) = w.toInt := by omega
    rw [if_neg hneg, if_pos heven, ← Int64.ofInt_eq_ofNat, hback, Int64.ofInt_toInt]

/-! ## Texts -/

/-- The loop puts the bytes from `i` on behind those that it has collected, last first. -/
theorem toList_loop (bytes : ByteArray) (i : ℕ) (r : Bytes) :
    ByteArray.toList.loop bytes i r = r.reverse ++ bytes.data.toList.drop i := by
  induction h : bytes.size - i generalizing i r with
  | zero =>
    have hi : ¬i < bytes.size := by omega
    have hdrop : bytes.data.toList.drop i = [] := by
      rw [List.drop_eq_nil_iff, Array.length_toList, ByteArray.size_data]
      omega
    rw [ByteArray.toList.loop, if_neg hi, hdrop, List.append_nil]
  | succ left ih =>
    have hi : i < bytes.size := by omega
    have hlt : i < bytes.data.toList.length := by rwa [Array.length_toList, ByteArray.size_data]
    have hget : bytes.get! i = bytes.data.toList[i] := by
      show bytes.data[i]! = _
      rw [getElem!_pos bytes.data i (by rwa [ByteArray.size_data]), Array.getElem_toList]
    rw [ByteArray.toList.loop, if_pos hi, ih (i + 1) _ (by omega), hget, List.reverse_cons,
      List.append_assoc, List.singleton_append, ← List.drop_eq_getElem_cons hlt]

/-- The bytes of an array, in order. -/
theorem toList_bytes (bytes : ByteArray) : bytes.toList = bytes.data.toList :=
  toList_loop bytes 0 []

theorem fromUTF8?_toUTF8 (s : String) : String.fromUTF8? s.toUTF8 = some s := by
  show (if h : s.toUTF8.IsValidUTF8 then some (String.fromUTF8 s.toUTF8 h) else none) = some s
  exact dif_pos s.isValidUTF8

theorem length_toList_toUTF8 (s : String) : s.toUTF8.toList.length = s.utf8ByteSize := by
  rw [toList_bytes, Array.length_toList]
  rfl

theorem utf8ByteSize_lt {s : String} (h : Countable s.toUTF8.toList) :
    s.utf8ByteSize < 2 ^ 64 := length_toList_toUTF8 s ▸ h

/-- **A text** is read back from its UTF-8 form. -/
theorem returns_string (s : String) : string.Returns s := by
  intro hcount rest
  have hcount : Countable (number.write s.utf8ByteSize ++ s.toUTF8.toList) := hcount
  have hsize := length_toList_toUTF8 s
  have htake : (s.toUTF8.toList ++ rest).take s.utf8ByteSize = s.toUTF8.toList :=
    List.take_left' hsize
  have hdrop : (s.toUTF8.toList ++ rest).drop s.utf8ByteSize = rest := List.drop_left' hsize
  have hback : String.fromUTF8? ⟨s.toUTF8.toList.toArray⟩ = some s := by
    rw [toList_bytes, Array.toArray_toList]
    exact fromUTF8?_toUTF8 s
  show (number.read (number.write s.utf8ByteSize ++ s.toUTF8.toList ++ rest)).bind _ = _
  rw [List.append_assoc, read_number (utf8ByteSize_lt hcount.right), Option.bind_some]
  show (if ((s.toUTF8.toList ++ rest).take s.utf8ByteSize).length = s.utf8ByteSize then
      (String.fromUTF8? ⟨((s.toUTF8.toList ++ rest).take s.utf8ByteSize).toArray⟩).map
        (·, (s.toUTF8.toList ++ rest).drop s.utf8ByteSize) else none) = _
  rw [htake, hdrop, if_pos hsize, hback, Option.map_some]

theorem length_write_string_pos (s : String) : 0 < (string.write s).length := by
  have h := length_write_number_pos s.utf8ByteSize
  show 0 < (number.write s.utf8ByteSize ++ s.toUTF8.toList).length
  rw [List.length_append]
  omega

end Codec

end Blockscript.Binary
