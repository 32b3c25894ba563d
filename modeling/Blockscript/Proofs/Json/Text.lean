import Blockscript.Proofs.Text.Reading
import Blockscript.Json.Decoder
import Blockscript.Json.Parser
import Blockscript.Json.Printer

/-!
# JSON texts read back

`parse_compact`: the compact text of a JSON value reads as that value. The one value without a text
of its own is `unpaired`; `writable` says that it occurs nowhere.

Characters, strings and numbers are read back in front of any text that does not go on with them.
The induction is on the fuel, which all three readers of values lower and which the length of the
text bounds.
-/

namespace Blockscript.Json

open Text

mutual

/-- Whether a value has a text: no string in it and no key lacks half of a surrogate pair. -/
def writable : Json → Bool
  | .unpaired => false
  | .arr items => writableItems items
  | .obj members => writableMembers members
  | _ => true

/-- `writable` for every item of an array. -/
def writableItems : List Json → Bool
  | [] => true
  | j :: js => writable j && writableItems js

/-- `writable` for every member of an object. -/
def writableMembers : List (String × Json) → Bool
  | [] => true
  | (_, j) :: js => writable j && writableMembers js

end

theorem writableItems_iff : ∀ {items : List Json},
    writableItems items = true ↔ ∀ j ∈ items, j.writable = true
  | [] => by simp [writableItems]
  | j :: js => by
    rw [writableItems, Bool.and_eq_true, writableItems_iff, List.forall_mem_cons]

theorem writable_arr_map {α : Type} {encode : α → Json} (h : ∀ a, (encode a).writable = true)
    (as : List α) : (Json.arr (as.map encode)).writable = true := by
  refine writableItems_iff.2 fun j hj => ?_
  obtain ⟨a, -, rfl⟩ := List.mem_map.1 hj
  exact h a

theorem writable_ofOption {α : Type} {encode : α → Json}
    (h : ∀ a, (encode a).writable = true) (o : Option α) :
    (ofOption encode o).writable = true := by
  cases o with
  | none => rfl
  | some a => exact h a

@[simp] theorem writable_ofOption_str (o : Option String) :
    (ofOption Json.str o).writable = true := writable_ofOption (fun _ => rfl) o

/-! ## Strings -/

theorem hexDigit?_hexChar (n : Nat) : hexDigit? (hexChar n) = some (n % 16) := by
  have digits : ∀ d < 16, hexDigit? (Nat.digitChar d) = some d := by decide
  exact digits _ (Nat.mod_lt _ (by decide))

/-- What a string has for a character reads as one piece, which joins to that character. -/
theorem exists_piece (c : Char) : ∃ p : Piece,
    (∀ s, readPieces (charText c ++ s) = (readPieces s).map fun (ps, rest) => (p :: ps, rest)) ∧
      ∀ ps, joinPieces (p :: ps) = (joinPieces ps).map (c :: ·) := by
  by_cases hshort : c = '"' ∨ c = '\\' ∨ c = '\x08' ∨ c = '\x0c' ∨ c = '\n' ∨ c = '\r' ∨ c = '\t'
  · refine ⟨.char c, fun s => ?_, fun ps => rfl⟩
    rcases hshort with rfl | rfl | rfl | rfl | rfl | rfl | rfl <;>
      simp [charText, readPieces, escaped?] <;> cases readPieces s <;> rfl
  simp only [not_or] at hshort
  obtain ⟨hquote, hslash, hb, hf, hn, hr, ht⟩ := hshort
  by_cases hcontrol : c.toNat < 0x20
  · refine ⟨.unit c.toNat, fun s => ?_, fun ps => ?_⟩
    · have htext : charText c = ['\\', 'u', '0', '0', hexChar (c.toNat / 16), hexChar c.toNat] := by
        simp only [charText, hquote, hslash, hb, hf, hn, hr, ht, hcontrol, if_false, if_true]
      have hvalue : 16 * (c.toNat / 16 % 16) + c.toNat % 16 = c.toNat := by omega
      have hzero : hexDigit? '0' = some 0 := rfl
      rw [htext]
      simp only [List.cons_append, List.nil_append, readPieces, hexDigit?_hexChar, hzero]
      cases readPieces s <;> simp [hvalue]
    · have hbelow : c.toNat < 0xd800 ∨ 0xe000 ≤ c.toNat := Or.inl (by omega)
      cases ps with
      | nil => simp only [joinPieces, hbelow, if_true, Char.ofNat_toNat]
      | cons p ps => cases p <;> simp only [joinPieces, hbelow, if_true, Char.ofNat_toNat]
  · refine ⟨.char c, fun s => ?_, fun ps => rfl⟩
    have htext : charText c = [c] := by
      simp only [charText, hquote, hslash, hb, hf, hn, hr, ht, hcontrol, if_false]
    rw [htext, List.singleton_append, readPieces, if_neg (by simp [hcontrol, hslash])]
    · cases readPieces s <;> rfl
    · exact hquote
    · exact fun a b c' d s' h => absurd h hslash
    · exact fun e s' h => absurd h hslash

theorem readString_text (s : String) (rest : List Char) :
    readString (s.toList.flatMap charText ++ '"' :: rest) = some (some s, rest) := by
  have hpieces : ∀ cs : List Char, ∃ ps,
      readPieces (cs.flatMap charText ++ '"' :: rest) = some (ps, rest) ∧
        joinPieces ps = some cs := by
    intro cs
    induction cs with
    | nil => exact ⟨[], by simp [readPieces], rfl⟩
    | cons c cs ih =>
      obtain ⟨p, hread, hjoin⟩ := exists_piece c
      obtain ⟨ps, hps, hcs⟩ := ih
      refine ⟨p :: ps, ?_, by rw [hjoin, hcs, Option.map_some]⟩
      rw [List.flatMap_cons, List.append_assoc, hread, hps, Option.map_some]
  obtain ⟨ps, hps, hcs⟩ := hpieces s.toList
  simp only [readString, hps, hcs, Option.map_some, String.ofList_toList]

/-! ## Numbers -/

/-- A text that does not go on with a number. -/
def Stops (s : List Char) : Prop :=
  ∀ c ∈ s.head?, c.isDigit = false ∧ c ≠ '.' ∧ c ≠ 'e' ∧ c ≠ 'E'

theorem Stops.isDigit {s : List Char} (h : Stops s) : ∀ c ∈ s.head?, c.isDigit = false :=
  fun c hc => (h c hc).1

/-- Only zero is written with a zero in front. -/
theorem head?_natDigits_ne {n : Nat} (h : 0 < n) : (natDigits n).head? ≠ some '0' := by
  have hdigit : ∀ d < 10, 0 < d → Nat.digitChar d ≠ '0' := by decide
  induction n using Nat.strongRecOn with
  | ind n ih =>
    rcases Nat.lt_or_ge n 10 with hn | hn
    · rw [natDigits, Nat.toDigits_of_lt_base hn]
      simpa using hdigit n hn h
    · rw [natDigits, Nat.toDigits_of_base_le (by decide) hn,
        List.head?_append_of_ne_nil _ Nat.toDigits_ne_nil]
      exact ih (n / 10) (by omega) (by omega)

theorem natDigits_no_zero (n : Nat) :
    ¬((natDigits n).head? = some '0' ∧ (natDigits n).length > 1) := by
  rintro ⟨hzero, hlen⟩
  rcases Nat.eq_zero_or_pos n with rfl | hn
  · exact absurd hlen (by decide)
  · exact head?_natDigits_ne hn hzero

theorem digitsValue_natDigits (n : Nat) : digitsValue (natDigits n) = n := by
  rw [digitsValue, natDigits, Nat.ofDigitChars_ten_toDigits]

theorem exists_natDigits_eq_cons (n : Nat) : ∃ c s, natDigits n = c :: s ∧ c.isDigit = true := by
  cases hn : natDigits n with
  | nil => exact absurd hn Nat.toDigits_ne_nil
  | cons c s => exact ⟨c, s, rfl, isDigit_of_mem_natDigits (n := n) (by simp [hn])⟩

theorem readDigits_natDigits (n : Nat) {rest : List Char}
    (h : ∀ c ∈ rest.head?, c.isDigit = false) :
    readDigits (natDigits n ++ rest) = some (natDigits n, rest) := by
  have hdigits : ∀ c ∈ natDigits n, c.isDigit = true := fun c hc => isDigit_of_mem_natDigits hc
  rw [readDigits, takeWhile_append_stop hdigits h, dropWhile_append_stop hdigits h]
  obtain ⟨c, s, hn, -⟩ := exists_natDigits_eq_cons n
  rw [hn]

theorem readFraction_of_ne {s : List Char} (h : ∀ c ∈ s.head?, c ≠ '.') :
    readFraction s = some (none, s) := by
  unfold readFraction
  split
  · exact absurd rfl (h _ rfl)
  · rfl

theorem readExponent_of_ne {s : List Char} (h : ∀ c ∈ s.head?, c ≠ 'e' ∧ c ≠ 'E') :
    readExponent s = some (none, s) := by
  unfold readExponent
  split
  · rename_i c s
    rw [if_neg (by simpa [not_or] using h c rfl)]
  · rfl

/-- An exponent reads back. -/
theorem readExponent_intDigits (e : Int) {rest : List Char}
    (h : ∀ c ∈ rest.head?, c.isDigit = false) :
    readExponent ('e' :: intDigits e ++ rest) = some (some e, rest) := by
  unfold intDigits
  split
  · have hvalue : -((e.natAbs : Nat) : Int) = e := by omega
    simp only [List.cons_append, readExponent, readDigits_natDigits _ h, Option.map_some,
      digitsValue_natDigits, hvalue, true_or, if_true]
  · have hvalue : ((e.natAbs : Nat) : Int) = e := by omega
    obtain ⟨c, s, hn, hc⟩ := exists_natDigits_eq_cons e.natAbs
    rw [List.cons_append, readExponent, if_pos (Or.inl rfl), readDigits_natDigits _ h]
    · simp only [Option.map_some, digitsValue_natDigits, hvalue]
    · rintro s' hs
      rw [hn] at hs
      cases hs
      exact absurd hc (by decide)
    · rintro s' hs
      rw [hn] at hs
      cases hs
      exact absurd hc (by decide)

theorem readMagnitude_natDigits (sign : Int) {n : Nat} (hn : 0 ≤ sign ∨ 0 < n) {rest : List Char}
    (h : Stops rest) :
    readMagnitude sign (natDigits n ++ rest) = some (.int (sign * n), rest) := by
  have hfraction : readFraction rest = some (none, rest) :=
    readFraction_of_ne fun c hc => (h c hc).2.1
  have hexponent : readExponent rest = some (none, rest) :=
    readExponent_of_ne fun c hc => (h c hc).2.2
  have hzero : ¬(sign < 0 ∧ (n : Int) = 0) := by omega
  simp only [readMagnitude, readDigits_natDigits n h.isDigit, Option.bind_eq_bind,
    Option.bind_some, if_neg (natDigits_no_zero n), hfraction, hexponent, digitsValue_natDigits,
    if_neg hzero]

theorem readMagnitude_real (sign : Int) (n : Nat) (e : Int) {rest : List Char} (h : Stops rest) :
    readMagnitude sign (natDigits n ++ ('e' :: intDigits e ++ rest)) =
      some (.real (sign * n) e, rest) := by
  have hdigits : readDigits (natDigits n ++ ('e' :: intDigits e ++ rest)) =
      some (natDigits n, 'e' :: intDigits e ++ rest) :=
    readDigits_natDigits n (by simp [Char.isDigit])
  have hfraction : readFraction ('e' :: intDigits e ++ rest) =
      some (none, 'e' :: intDigits e ++ rest) :=
    readFraction_of_ne (by simp)
  simp only [readMagnitude, hdigits, Option.bind_eq_bind, Option.bind_some,
    if_neg (natDigits_no_zero n), hfraction, readExponent_intDigits e h.isDigit,
    Option.getD_none, Option.getD_some, List.append_nil, digitsValue_natDigits, List.length_nil]
  simp

/-- A number without its sign is read by its digits. -/
theorem readNumber_natDigits (n : Nat) (rest : List Char) :
    readNumber (natDigits n ++ rest) = readMagnitude 1 (natDigits n ++ rest) := by
  obtain ⟨c, s, hn, hc⟩ := exists_natDigits_eq_cons n
  rw [hn, List.cons_append, readNumber]
  rintro s' hs
  cases hs
  exact absurd hc (by decide)

theorem readNumber_intDigits (i : Int) {rest : List Char} (h : Stops rest) :
    readNumber (intDigits i ++ rest) = some (.int i, rest) := by
  unfold intDigits
  split
  · have hvalue : -1 * ((i.natAbs : Nat) : Int) = i := by omega
    rw [List.cons_append, readNumber, readMagnitude_natDigits _ (Or.inr (by omega)) h, hvalue]
  · have hvalue : 1 * ((i.natAbs : Nat) : Int) = i := by omega
    rw [readNumber_natDigits, readMagnitude_natDigits _ (Or.inl (by decide)) h, hvalue]

theorem readNumber_realText (m e : Int) {rest : List Char} (h : Stops rest) :
    readNumber (realText m e ++ rest) = some (.real m e, rest) := by
  unfold realText
  rw [List.append_assoc]
  unfold intDigits
  split
  · have hvalue : -1 * ((m.natAbs : Nat) : Int) = m := by omega
    rw [List.cons_append, readNumber]
    exact (readMagnitude_real (-1) m.natAbs e h).trans (by rw [hvalue])
  · have hvalue : 1 * ((m.natAbs : Nat) : Int) = m := by omega
    rw [readNumber_natDigits]
    exact (readMagnitude_real 1 m.natAbs e h).trans (by rw [hvalue])

/-! ## Values -/

theorem skipSpace_of_not {c : Char} {s : List Char}
    (h : ¬(c = ' ' ∨ c = '\t' ∨ c = '\n' ∨ c = '\r')) : skipSpace (c :: s) = c :: s :=
  List.dropWhile_cons_of_neg (by simpa using h)

/-- A number starts with a digit or a minus. -/
theorem exists_intDigits_eq_cons (i : Int) (r : List Char) :
    ∃ c s, intDigits i ++ r = c :: s ∧ (c.isDigit = true ∨ c = '-') := by
  unfold intDigits
  split
  · exact ⟨_, _, rfl, Or.inr rfl⟩
  · obtain ⟨c, s, hn, hc⟩ := exists_natDigits_eq_cons i.natAbs
    exact ⟨c, s ++ r, by rw [hn, List.cons_append], Or.inl hc⟩

theorem not_space_of_number {c : Char} (h : c.isDigit = true ∨ c = '-') :
    ¬(c = ' ' ∨ c = '\t' ∨ c = '\n' ∨ c = '\r') ∧ c ≠ ']' := by
  constructor
  · rintro (rfl | rfl | rfl | rfl) <;> exact absurd h (by decide)
  · rintro rfl
    exact absurd h (by decide)

/-- The text of a value starts with a character that tells it from space and from the end of an
array. -/
theorem exists_compactText_eq_cons (j : Json) : ∃ c s, compactText j = c :: s ∧
    ¬(c = ' ' ∨ c = '\t' ∨ c = '\n' ∨ c = '\r') ∧ c ≠ ']' := by
  have hnumber : ∀ (i : Int) (r : List Char), ∃ c s, intDigits i ++ r = c :: s ∧
      ¬(c = ' ' ∨ c = '\t' ∨ c = '\n' ∨ c = '\r') ∧ c ≠ ']' := fun i r => by
    obtain ⟨c, s, hs, hc⟩ := exists_intDigits_eq_cons i r
    exact ⟨c, s, hs, not_space_of_number hc⟩
  cases j with
  | null | unpaired => exact ⟨_, _, rfl, by decide, by decide⟩
  | bool b => cases b <;> exact ⟨_, _, rfl, by decide, by decide⟩
  | int i => simpa [compactText] using hnumber i []
  | real m e => exact hnumber m _
  | str s => exact ⟨_, _, rfl, by decide, by decide⟩
  | arr items => cases items <;> exact ⟨_, _, rfl, by decide, by decide⟩
  | obj members => cases members <;> exact ⟨_, _, rfl, by decide, by decide⟩

/-- A text that starts with a digit or a minus is read as a number. -/
theorem readValue_eq_readNumber {s : List Char} (fuel : Nat)
    (h : ∃ c r, s = c :: r ∧ (c.isDigit = true ∨ c = '-')) :
    readValue (fuel + 1) s = readNumber s := by
  obtain ⟨c, r, rfl, hc⟩ := h
  rw [readValue, skipSpace_of_not (not_space_of_number hc).1]
  split <;> rename_i hs <;> first | rfl | (cases hs; exact absurd hc (by decide))

theorem stops_nil : Stops [] := nofun

theorem stops_cons {c : Char} (s : List Char)
    (h : c.isDigit = false ∧ c ≠ '.' ∧ c ≠ 'e' ∧ c ≠ 'E') : Stops (c :: s) := by
  rintro d ⟨⟩
  exact h

theorem stops_compactItems (js : List Json) (rest : List Char) :
    Stops (compactItems js ++ rest) := by
  cases js <;> exact stops_cons _ (by decide)

theorem stops_compactMembers (js : List (String × Json)) (rest : List Char) :
    Stops (compactMembers js ++ rest) := by
  cases js <;> exact stops_cons _ (by decide)

/-- What the three readers of values read back with so much fuel. -/
structure ReadsBack (fuel : Nat) : Prop where
  value : ∀ {j : Json} {rest : List Char}, j.writable = true → (compactText j).length ≤ fuel →
    Stops rest → readValue fuel (compactText j ++ rest) = some (j, rest)
  items : ∀ {j : Json} {js : List Json} (rest : List Char), writableItems (j :: js) = true →
    (compactText j).length + (compactItems js).length ≤ fuel →
      readItems fuel (compactText j ++ (compactItems js ++ rest)) = some (j :: js, rest)
  members : ∀ {k : String} {j : Json} {js : List (String × Json)} (rest : List Char),
    writableMembers ((k, j) :: js) = true →
    (compactText j).length + (compactMembers js).length ≤ fuel →
      readMembers fuel (stringText k ++ ':' :: (compactText j ++ (compactMembers js ++ rest))) =
        some (some ((k, j) :: js), rest)

namespace ReadsBack

variable {fuel : Nat} (ih : ReadsBack fuel)

include ih

theorem value_succ {j : Json} {rest : List Char} (hj : j.writable = true)
    (hfuel : (compactText j).length ≤ fuel + 1) (hrest : Stops rest) :
    readValue (fuel + 1) (compactText j ++ rest) = some (j, rest) := by
  cases j with
  | null => rfl
  | unpaired => cases hj
  | bool b => cases b <;> rfl
  | int i =>
    rw [compactText, readValue_eq_readNumber fuel (exists_intDigits_eq_cons i rest)]
    exact readNumber_intDigits i hrest
  | real m e =>
    have hstart := exists_intDigits_eq_cons m ('e' :: intDigits e ++ rest)
    rw [← List.append_assoc, ← realText] at hstart
    rw [compactText, readValue_eq_readNumber fuel hstart]
    exact readNumber_realText m e hrest
  | str s =>
    have htext : compactText (.str s) ++ rest =
        '"' :: (s.toList.flatMap charText ++ '"' :: rest) := by
      simp [compactText, stringText]
    rw [htext, readValue, skipSpace_of_not (by decide)]
    simp only [readString_text, Option.map_some, Option.elim_some]
  | arr items =>
    cases items with
    | nil => rfl
    | cons j js =>
      have htext : compactText (.arr (j :: js)) ++ rest =
          '[' :: (compactText j ++ (compactItems js ++ rest)) := by
        simp [compactText]
      have hlen : (compactText j).length + (compactItems js).length ≤ fuel := by
        simp only [compactText, List.length_cons, List.length_append, List.cons_append] at hfuel
        omega
      have hitems := ih.items rest hj hlen
      obtain ⟨c, s, hs, hspace, hclose⟩ := exists_compactText_eq_cons j
      rw [htext, readValue, skipSpace_of_not (by decide)]
      rw [hs, List.cons_append] at hitems ⊢
      simp only [skipSpace_of_not hspace]
      split
      · rename_i h
        cases h
        exact absurd rfl hclose
      · rw [hitems, Option.map_some]
  | obj members =>
    cases members with
    | nil => rfl
    | cons member js =>
      obtain ⟨k, j⟩ := member
      have htext : compactText (.obj ((k, j) :: js)) ++ rest =
          '{' :: (stringText k ++ ':' :: (compactText j ++ (compactMembers js ++ rest))) := by
        simp [compactText]
      have hlen : (compactText j).length + (compactMembers js).length ≤ fuel := by
        simp only [compactText, List.length_cons, List.length_append, List.cons_append] at hfuel
        omega
      have hmembers := ih.members (k := k) rest hj hlen
      rw [htext, readValue, skipSpace_of_not (by decide)]
      rw [stringText, List.cons_append, List.cons_append] at hmembers ⊢
      change (readMembers fuel ('"' :: _)).map _ = _
      rw [hmembers]
      rfl

theorem items_succ {j : Json} {js : List Json} (rest : List Char)
    (hj : writableItems (j :: js) = true)
    (hfuel : (compactText j).length + (compactItems js).length ≤ fuel + 1) :
    readItems (fuel + 1) (compactText j ++ (compactItems js ++ rest)) = some (j :: js, rest) := by
  rw [writableItems, Bool.and_eq_true] at hj
  cases js with
  | nil =>
    have hlen : (compactText j).length ≤ fuel := by
      simp only [compactItems, List.length_singleton] at hfuel
      omega
    have hvalue := ih.value hj.1 hlen (stops_compactItems [] rest)
    simp only [readItems, hvalue, Option.bind_eq_bind, Option.bind_some]
    rw [compactItems, List.singleton_append, skipSpace_of_not (by decide)]
    rfl
  | cons j' js =>
    simp only [compactItems, List.cons_append, List.length_cons, List.length_append] at hfuel
    have hvalue := ih.value hj.1 (by omega) (stops_compactItems (j' :: js) rest)
    have hitems := ih.items rest hj.2 (by omega)
    simp only [readItems, hvalue, Option.bind_eq_bind, Option.bind_some]
    rw [compactItems, List.cons_append, List.cons_append, skipSpace_of_not (by decide),
      List.append_assoc]
    simp only [hitems, Option.bind_some]

theorem members_succ {k : String} {j : Json} {js : List (String × Json)} (rest : List Char)
    (hj : writableMembers ((k, j) :: js) = true)
    (hfuel : (compactText j).length + (compactMembers js).length ≤ fuel + 1) :
    readMembers (fuel + 1) (stringText k ++ ':' :: (compactText j ++ (compactMembers js ++ rest))) =
      some (some ((k, j) :: js), rest) := by
  rw [writableMembers, Bool.and_eq_true] at hj
  have hkey := readString_text k (':' :: (compactText j ++ (compactMembers js ++ rest)))
  have htext : stringText k ++ ':' :: (compactText j ++ (compactMembers js ++ rest)) =
      '"' :: (k.toList.flatMap charText ++
        '"' :: ':' :: (compactText j ++ (compactMembers js ++ rest))) := by
    simp [stringText]
  rw [htext, readMembers, skipSpace_of_not (by decide)]
  simp only [hkey, Option.bind_eq_bind, Option.bind_some]
  rw [skipSpace_of_not (by decide)]
  cases js with
  | nil =>
    have hlen : (compactText j).length ≤ fuel := by
      simp only [compactMembers, List.length_singleton] at hfuel
      omega
    have hvalue := ih.value hj.1 hlen (stops_compactMembers [] rest)
    simp only [hvalue, Option.bind_some]
    rw [compactMembers, List.singleton_append, skipSpace_of_not (by decide)]
    rfl
  | cons member js =>
    obtain ⟨k', j'⟩ := member
    simp only [compactMembers, List.cons_append, List.length_cons, List.length_append] at hfuel
    have hvalue := ih.value hj.1 (by omega) (stops_compactMembers ((k', j') :: js) rest)
    have hmembers := ih.members rest hj.2 (by omega)
    have hnext : compactMembers ((k', j') :: js) ++ rest =
        ',' :: (stringText k' ++ ':' :: (compactText j' ++ (compactMembers js ++ rest))) := by
      simp [compactMembers]
    simp only [hvalue, Option.bind_some]
    rw [hnext, skipSpace_of_not (by decide)]
    simp only [hmembers, Option.bind_some, Option.map_some]

end ReadsBack

theorem readsBack (fuel : Nat) : ReadsBack fuel := by
  induction fuel with
  | zero =>
    have hpos : ∀ j : Json, 0 < (compactText j).length := fun j => by
      obtain ⟨c, s, hs, -⟩ := exists_compactText_eq_cons j
      rw [hs]
      exact Nat.succ_pos _
    refine ⟨fun {j _} _ h _ => ?_, fun {j _} _ _ h => ?_, fun {_ j _} _ _ h => ?_⟩ <;>
      exact absurd (hpos j) (by omega)
  | succ fuel ih => exact ⟨ih.value_succ, ih.items_succ, ih.members_succ⟩

/-- **The compact text of a value reads as the value.** -/
theorem parse_compact {j : Json} (h : j.writable = true) : parse (compact j) = some j := by
  have hvalue : readValue (2 * (compactText j).length + 2) (compactText j) = some (j, []) := by
    simpa using (readsBack _).value h (by omega) stops_nil
  simp only [parse, compact, String.toList_ofList, hvalue]
  rfl

end Blockscript.Json
