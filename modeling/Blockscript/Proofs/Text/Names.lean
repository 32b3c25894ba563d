import Blockscript.Proofs.Text.Trim
import Blockscript.Text.Word

/-!
# Name characters

The characters of a name lie in four ranges of code points (`toNat_of_isName`), so that none of
them is a blank or breaks a line.
-/

namespace Blockscript.Text

theorem toNat_of_isName {c : Char} (h : isName c = true) :
    (48 ≤ c.toNat ∧ c.toNat ≤ 57) ∨ (65 ≤ c.toNat ∧ c.toNat ≤ 90) ∨ c.toNat = 95 ∨
      (97 ≤ c.toNat ∧ c.toNat ≤ 122) := by
  rw [isName, Char.isAlphanum] at h
  delta Char.isAlpha Char.isUpper Char.isLower at h
  simp only [Char.isDigit, Bool.or_eq_true, Bool.and_eq_true, decide_eq_true_eq, beq_iff_eq,
    ge_iff_le, UInt32.le_iff_toNat_le] at h
  rcases h with ((h | h) | h) | h
  · exact .inr (.inl h)
  · exact .inr (.inr (.inr h))
  · exact .inl h
  · exact .inr (.inr (.inl (h ▸ rfl)))

theorem isBlank_of_isName {c : Char} (h : isName c = true) : isBlank c = false := by
  have hn := toNat_of_isName h
  simp [isBlank]
  omega

theorem isName_of_isBlank {c : Char} (h : isBlank c = true) : isName c = false := by
  by_contra hn
  rw [isBlank_of_isName (eq_true_of_ne_false hn)] at h
  cases h

/-- A text of characters that satisfy `p`, and of one at least. -/
structure IsWordOf (p : Char → Bool) (s : List Char) : Prop where
  ne_nil : s ≠ []
  all : ∀ c ∈ s, p c = true

instance (p : Char → Bool) (s : List Char) : Decidable (IsWordOf p s) :=
  decidable_of_iff (s ≠ [] ∧ ∀ c ∈ s, p c = true) ⟨fun h => ⟨h.1, h.2⟩, fun h => ⟨h.1, h.2⟩⟩

theorem IsWordOf.inline {p : Char → Bool} (hp : ∀ c, p c = true → isBlank c = false)
    {s : List Char} (h : IsWordOf p s) : Inline s where
  head c hc := hp c (h.all c (List.mem_of_mem_head? hc))
  last c hc := hp c (h.all c (List.mem_of_mem_getLast? hc))
  no_break c hc hb := by
    have hn := hp c (h.all c hc)
    rw [isBlank_of_isBreak hb] at hn
    cases hn

theorem IsWordOf.inline_name {s : List Char} (h : IsWordOf isName s) : Inline s :=
  h.inline fun _ => isBlank_of_isName

/-- A name has no blanks and no other character than those of names. -/
theorem IsWordOf.not_blank_ne {s : List Char} (h : IsWordOf isName s) {d : Char}
    (hd : isName d = false) : ∀ c ∈ s, (!isBlank c && c != d) = true := by
  intro c hc
  rw [isBlank_of_isName (h.all c hc), Bool.not_false, Bool.true_and, bne_iff_ne]
  rintro rfl
  rw [h.all c hc] at hd
  cases hd

theorem IsWordOf.not_mem {p : Char → Bool} {s : List Char} (h : IsWordOf p s) {d : Char}
    (hd : p d = false) : d ∉ s := by
  intro hc
  rw [h.all d hc] at hd
  cases hd

end Blockscript.Text
