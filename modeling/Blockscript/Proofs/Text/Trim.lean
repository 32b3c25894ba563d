import Mathlib.Data.List.DropRight
import Blockscript.Text.Blank

/-!
# Trimmed text

A text is `Tight` if neither its first nor its last character is a blank, and `Inline` if it is
tight and has no line break. Trimming makes a text tight (`tight_trim`), `oneLine` makes it inline
(`inline_oneLine`), and each leaves alone what already is so. `trim_padded` finds a tight text
again between any blanks.
-/

namespace Blockscript.Text

/-- A property of the characters of a text is decided one character after the other. -/
instance (priority := 2000) decidableForallMemText {p : Char → Prop} [DecidablePred p]
    (s : List Char) : Decidable (∀ c ∈ s, p c) := List.decidableBAll p s

instance (priority := 2000) decidableForallMemEnd {p : Char → Prop} [DecidablePred p]
    (o : Option Char) : Decidable (∀ c ∈ o, p c) := Option.decidableForallMem o

/-- Whether a text is made of blanks only. -/
def Blanks (s : List Char) : Prop := ∀ c ∈ s, isBlank c = true

instance : DecidablePred Blanks := fun s => decidableForallMemText s

/-- Whether neither end of a text is a blank. -/
structure Tight (s : List Char) : Prop where
  head : ∀ c ∈ s.head?, isBlank c = false
  last : ∀ c ∈ s.getLast?, isBlank c = false

/-- Whether a character breaks a line. -/
def IsBreak (c : Char) : Prop := c = '\r' ∨ c = '\n'

instance : DecidablePred IsBreak := fun _ => inferInstanceAs (Decidable (_ ∨ _))

/-- Whether a text is tight and on one line. -/
structure Inline (s : List Char) : Prop extends Tight s where
  no_break : ∀ c ∈ s, ¬IsBreak c

instance (s : List Char) : Decidable (Tight s) :=
  decidable_of_iff ((∀ c ∈ s.head?, isBlank c = false) ∧ ∀ c ∈ s.getLast?, isBlank c = false)
    ⟨fun h => ⟨h.1, h.2⟩, fun h => ⟨h.head, h.last⟩⟩

instance (s : List Char) : Decidable (Inline s) :=
  decidable_of_iff (Tight s ∧ ∀ c ∈ s, ¬IsBreak c) ⟨fun h => ⟨h.1, h.2⟩, fun h => ⟨h.1, h.2⟩⟩

/-! ## Trimming -/

theorem isBlank_of_isBreak {c : Char} (h : IsBreak c) : isBlank c = true := by
  rcases h with rfl | rfl <;> decide

@[simp] theorem blanks_nil : Blanks [] := fun _ h => absurd h List.not_mem_nil

theorem blanks_space : Blanks [' '] := by
  intro c hc
  rw [List.mem_singleton.1 hc]
  decide

theorem blanks_replicate (n : ℕ) : Blanks (List.replicate n ' ') := by
  intro c hc
  rw [List.eq_of_mem_replicate hc]
  decide

theorem trimStart_cons_of_not {c : Char} {s : List Char} (h : isBlank c = false) :
    trimStart (c :: s) = c :: s :=
  List.dropWhile_cons_of_neg (by simp [h])

theorem trimStart_append_of_blanks {b : List Char} (hb : Blanks b) (s : List Char) :
    trimStart (b ++ s) = trimStart s :=
  List.dropWhile_append_of_pos hb

theorem trimStart_eq_self {s : List Char} (h : ∀ c ∈ s.head?, isBlank c = false) :
    trimStart s = s := by
  cases s with
  | nil => rfl
  | cons c s => exact trimStart_cons_of_not (h c rfl)

/-- The end is trimmed as the start of the text read backwards. -/
theorem reverse_trimEnd (s : List Char) : (trimEnd s).reverse = trimStart s.reverse :=
  List.reverse_reverse _

theorem trimEnd_append_of_blanks (s : List Char) {b : List Char} (hb : Blanks b) :
    trimEnd (s ++ b) = trimEnd s := by
  have hr : Blanks b.reverse := fun c hc => hb c (List.mem_reverse.1 hc)
  rw [← List.reverse_inj, reverse_trimEnd, reverse_trimEnd, List.reverse_append,
    trimStart_append_of_blanks hr]

theorem trimEnd_eq_self {s : List Char} (h : ∀ c ∈ s.getLast?, isBlank c = false) :
    trimEnd s = s := by
  rw [← List.reverse_inj, reverse_trimEnd]
  exact trimStart_eq_self (by rwa [List.head?_reverse])

theorem trimEnd_concat_of_not (s : List Char) {c : Char} (h : isBlank c = false) :
    trimEnd (s ++ [c]) = s ++ [c] :=
  trimEnd_eq_self (by simpa using h)

theorem prefix_trimEnd (s : List Char) : trimEnd s <+: s := List.rdropWhile_prefix isBlank s

theorem suffix_trimStart (s : List Char) : trimStart s <:+ s := List.dropWhile_suffix isBlank

theorem trim_subset (s : List Char) : trim s ⊆ s :=
  List.Subset.trans (prefix_trimEnd _).subset (suffix_trimStart s).subset

/-- A text is its trimmed end and blanks. -/
theorem exists_trimEnd_append (s : List Char) : ∃ b, Blanks b ∧ s = trimEnd s ++ b :=
  ⟨s.rtakeWhile isBlank, fun _ => List.mem_rtakeWhile_imp,
    List.rdropWhile_append_rtakeWhile.symm⟩

theorem isBlank_of_mem_getLast?_trimEnd {s : List Char} {c : Char}
    (h : c ∈ (trimEnd s).getLast?) : isBlank c = false := by
  obtain ⟨r, hr⟩ := List.head?_eq_some_iff.1 (List.head?_reverse.trans h)
  rw [reverse_trimEnd] at hr
  exact isBlank_of_trimStart_eq_cons hr

theorem trimEnd_append {t : List Char} (h : trimEnd t ≠ []) (s : List Char) :
    trimEnd (s ++ t) = s ++ trimEnd t := by
  obtain ⟨b, hb, ht⟩ := exists_trimEnd_append t
  conv_lhs => rw [ht, ← List.append_assoc, trimEnd_append_of_blanks _ hb]
  refine trimEnd_eq_self fun c hc => ?_
  rw [List.getLast?_append_of_ne_nil _ h] at hc
  exact isBlank_of_mem_getLast?_trimEnd hc

/-- A text is blanks and its trimmed start. -/
theorem exists_append_trimStart (s : List Char) : ∃ b, Blanks b ∧ s = b ++ trimStart s :=
  ⟨s.takeWhile isBlank, List.all_eq_true.1 List.all_takeWhile,
    (List.takeWhile_append_dropWhile).symm⟩

/-- A text is what trimming leaves, between blanks. -/
theorem exists_append_trim_append (s : List Char) :
    ∃ b b', Blanks b ∧ Blanks b' ∧ s = b ++ (trim s ++ b') := by
  obtain ⟨b, hb, hs⟩ := exists_append_trimStart s
  obtain ⟨b', hb', hs'⟩ := exists_trimEnd_append (trimStart s)
  exact ⟨b, b', hb, hb', by rw [trim, ← hs', ← hs]⟩

/-- Trimming takes blanks only. -/
theorem mem_trim_iff {s : List Char} {c : Char} (hc : isBlank c = false) : c ∈ trim s ↔ c ∈ s := by
  refine ⟨fun h => trim_subset s h, fun h => ?_⟩
  obtain ⟨b, b', hb, hb', hs⟩ := exists_append_trim_append s
  rw [hs, List.mem_append, List.mem_append] at h
  rcases h with h | h | h
  · exact absurd (hb c h) (by simp [hc])
  · exact h
  · exact absurd (hb' c h) (by simp [hc])

theorem trim_eq_nil_iff {s : List Char} : trim s = [] ↔ Blanks s := by
  constructor
  · intro h c hc
    by_contra hn
    have hmem := (mem_trim_iff (eq_false_of_ne_true hn)).2 hc
    rw [h] at hmem
    exact List.not_mem_nil hmem
  · intro h
    rw [trim, show trimStart s = [] from List.dropWhile_eq_nil_iff.2 h]
    rfl

/-! ## Tight text -/

theorem Tight.trim_eq {s : List Char} (h : Tight s) : trim s = s := by
  rw [trim, trimStart_eq_self h.head, trimEnd_eq_self h.last]

theorem isBlank_head?_append {w : List Char} (hw : Tight w) (hne : w ≠ []) (r : List Char) :
    ∀ c ∈ (w ++ r).head?, isBlank c = false := by
  rw [List.head?_append_of_ne_nil w hne]
  exact hw.head

theorem tight_trim (s : List Char) : Tight (trim s) where
  head c hc := by
    obtain ⟨r, hr⟩ := List.head?_eq_some_iff.1 hc
    obtain ⟨t, ht⟩ := prefix_trimEnd (trimStart s)
    rw [show trimEnd (trimStart s) = c :: r from hr, List.cons_append] at ht
    exact isBlank_of_trimStart_eq_cons ht.symm
  last _ hc := isBlank_of_mem_getLast?_trimEnd hc

theorem tight_of_trim_eq {s : List Char} (h : trim s = s) : Tight s := h ▸ tight_trim s

/-- A tight text between blanks is what trimming leaves. -/
theorem trim_padded {b s b' : List Char} (hb : Blanks b) (hs : Tight s) (hb' : Blanks b') :
    trim (b ++ s ++ b') = s := by
  cases s with
  | nil =>
    rw [List.append_nil, trim, trimStart_append_of_blanks hb]
    exact List.eq_nil_of_subset_nil fun c hc => by
      have hb'' : trimStart b' = [] := List.dropWhile_eq_nil_iff.2 hb'
      rw [hb''] at hc
      exact hc
  | cons c s =>
    rw [List.append_assoc, trim, trimStart_append_of_blanks hb, List.cons_append,
      trimStart_cons_of_not (hs.head c rfl), ← List.cons_append, trimEnd_append_of_blanks _ hb',
      trimEnd_eq_self hs.last]

/-! ## Text on one line -/

/-- A character, with a space for a line break. -/
def flat (c : Char) : Char := if IsBreak c then ' ' else c

theorem oneLine_eq (s : List Char) : oneLine s = trim (s.map flat) := rfl

@[simp] theorem isBlank_flat (c : Char) : isBlank (flat c) = isBlank c := by
  unfold flat
  split
  · rename_i h
    rw [isBlank_of_isBreak h]
    decide
  · rfl

theorem not_isBreak_flat (c : Char) : ¬IsBreak (flat c) := by
  unfold flat
  split
  · decide
  · assumption

theorem flat_of_not {c : Char} (h : ¬IsBreak c) : flat c = c := if_neg h

theorem Tight.map_flat {s : List Char} (h : Tight s) : Tight (s.map flat) where
  head c hc := by
    rw [List.head?_map] at hc
    obtain ⟨d, hd, rfl⟩ := Option.map_eq_some_iff.1 hc
    rw [isBlank_flat]
    exact h.head d hd
  last c hc := by
    rw [List.getLast?_map] at hc
    obtain ⟨d, hd, rfl⟩ := Option.map_eq_some_iff.1 hc
    rw [isBlank_flat]
    exact h.last d hd

theorem inline_oneLine (s : List Char) : Inline (oneLine s) where
  toTight := tight_trim _
  no_break c hc := by
    obtain ⟨d, -, rfl⟩ := List.mem_map.1 (trim_subset _ hc)
    exact not_isBreak_flat d

theorem map_flat_eq_self {s : List Char} (h : ∀ c ∈ s, ¬IsBreak c) : s.map flat = s :=
  (List.map_congr_left fun c hc => flat_of_not (h c hc)).trans (List.map_id s)

theorem Inline.oneLine_eq {s : List Char} (h : Inline s) : oneLine s = s := by
  rw [Text.oneLine_eq, map_flat_eq_self h.no_break, h.trim_eq]

theorem Tight.oneLine_eq {s : List Char} (h : Tight s) : oneLine s = s.map flat := by
  rw [Text.oneLine_eq, h.map_flat.trim_eq]

end Blockscript.Text
