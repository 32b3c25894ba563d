import Blockscript.Proofs.Text.Trim
import Blockscript.Text.Lines
import Blockscript.Text.Scan

/-!
# Reading what was put together

Each scanning step takes the pieces of a text apart again where it was told to: `run_append` and
`cut_append` at the front, `cutLast_append` and `dropSemicolon_concat` at the end. `split_join`
does so for pieces without the separator, so that `join` loses nothing (`join_inj`).
-/

namespace Blockscript.Text

/-! ## Runs and cuts -/

section Stop

variable {p : Char → Bool} {w r : List Char} (hw : ∀ c ∈ w, p c = true)
  (hr : ∀ c ∈ r.head?, p c = false)

include hw hr

theorem takeWhile_append_stop : (w ++ r).takeWhile p = w := by
  rw [List.takeWhile_append_of_pos hw]
  cases r with
  | nil => simp
  | cons c r => simp [hr c rfl]

theorem dropWhile_append_stop : (w ++ r).dropWhile p = r := by
  rw [List.dropWhile_append_of_pos hw]
  cases r with
  | nil => rfl
  | cons c r => simp [hr c rfl]

/-- A run goes as far as the characters satisfy the condition. -/
theorem run_append (hne : w ≠ []) : run p (w ++ r) = some (w, r) := by
  unfold run
  rw [takeWhile_append_stop hw hr, dropWhile_append_stop hw hr]
  cases w with
  | nil => exact absurd rfl hne
  | cons c w => rfl

end Stop

theorem of_run {p : Char → Bool} {s w r : List Char} (h : run p s = some (w, r)) :
    w ≠ [] ∧ ∀ c ∈ w, p c = true := by
  unfold run at h
  split at h
  · cases h
  · rename_i hne
    obtain ⟨rfl, -⟩ := Prod.mk.inj (Option.some.inj h)
    exact ⟨hne, List.all_eq_true.1 List.all_takeWhile⟩

theorem cut_append {c : Char} {s : List Char} (h : c ∉ s) (r : List Char) :
    cut c (s ++ c :: r) = some (s, r) := by
  have hs : ∀ d ∈ s, decide (d ≠ c) = true := fun d hd =>
    decide_eq_true (ne_of_mem_of_not_mem hd h)
  have hr : ∀ d ∈ (c :: r).head?, decide (d ≠ c) = false := by simp
  unfold cut
  rw [takeWhile_append_stop hs hr, dropWhile_append_stop hs hr]

theorem suffix_of_cut {c : Char} {s w r : List Char} (h : cut c s = some (w, r)) : r <:+ s := by
  unfold cut at h
  split at h
  · cases h
  · rename_i d rest hd
    cases h
    exact (List.suffix_cons d r).trans (hd ▸ List.dropWhile_suffix _)

theorem cut_eq_none {c : Char} {s : List Char} (h : c ∉ s) : cut c s = none := by
  have hs : s.dropWhile (· ≠ c) = [] :=
    List.dropWhile_eq_nil_iff.2 fun d hd => decide_eq_true (ne_of_mem_of_not_mem hd h)
  unfold cut
  rw [hs]

theorem cutLast_append {c : Char} {r : List Char} (h : c ∉ r) (s : List Char) :
    cutLast c (s ++ c :: r) = some (s, r) := by
  have hc : c ∉ r.reverse := fun hc => h (List.mem_reverse.1 hc)
  have hrev : (s ++ c :: r).reverse = r.reverse ++ c :: s.reverse := by simp
  rw [cutLast, hrev, cut_append hc]
  simp

/-! ## Ends of a text -/

theorem beforeFinal_concat_of_ne {c d : Char} (h : d ≠ c) (s : List Char) :
    beforeFinal c (s ++ [d]) = none := by
  simp [beforeFinal, h]

theorem beforeFinal_eq_some {c : Char} {s r : List Char} (h : beforeFinal c s = some r) :
    s = r ++ [c] := by
  rcases List.eq_nil_or_concat s with rfl | ⟨r', d, rfl⟩
  · simp [beforeFinal] at h
  · by_cases hd : d = c
    · subst hd
      rw [List.concat_eq_append, beforeFinal_append] at h
      rw [List.concat_eq_append, Option.some.inj h]
    · rw [List.concat_eq_append, beforeFinal_concat_of_ne hd] at h
      cases h

theorem beforeFinal_eq_none_iff {c : Char} {s : List Char} :
    beforeFinal c s = none ↔ c ∉ s.getLast? := by
  rcases List.eq_nil_or_concat s with rfl | ⟨r, d, rfl⟩
  · simp [beforeFinal]
  · simp [beforeFinal, eq_comm]

@[simp] theorem dropSemicolon_concat (s : List Char) : dropSemicolon (s ++ [';']) = s := by
  rw [dropSemicolon, beforeFinal_append, Option.getD_some]

theorem dropSemicolon_concat_of_ne {d : Char} (h : d ≠ ';') (s : List Char) :
    dropSemicolon (s ++ [d]) = s ++ [d] := by
  rw [dropSemicolon, beforeFinal_concat_of_ne h, Option.getD_none]

theorem expectBlank_space {s : List Char} (h : ∀ c ∈ s.head?, isBlank c = false) :
    expectBlank (' ' :: s) = some s := by
  rw [expectBlank, if_pos (by decide), trimStart_eq_self h]

/-! ## Separated text -/

theorem split_of_not_mem {sep : Char} {s : List Char} (h : sep ∉ s) : split sep s = [s] := by
  induction s with
  | nil => rfl
  | cons c s ih =>
    rw [List.mem_cons, not_or] at h
    rw [split, ih h.2]
    exact if_neg fun hc => h.1 hc.symm

/-- A separator keeps the pieces on both sides of it apart. -/
theorem split_append (sep : Char) (s r : List Char) :
    split sep (s ++ sep :: r) = split sep s ++ split sep r := by
  induction s with
  | nil =>
    obtain ⟨p, ps, hp⟩ := List.exists_cons_of_ne_nil (split_ne_nil sep r)
    show split sep (sep :: r) = [] :: split sep r
    rw [split, hp]
    exact if_pos rfl
  | cons c s ih =>
    obtain ⟨p, ps, hp⟩ := List.exists_cons_of_ne_nil (split_ne_nil sep s)
    rw [List.cons_append, split, ih, split, hp]
    by_cases hc : c = sep <;> simp [hc]

theorem split_append_cons {sep : Char} {s : List Char} (h : sep ∉ s) (r : List Char) :
    split sep (s ++ sep :: r) = s :: split sep r := by
  rw [split_append, split_of_not_mem h]
  rfl

/-- No piece holds a separator. -/
theorem not_mem_of_mem_split (sep : Char) (s : List Char) : ∀ l ∈ split sep s, sep ∉ l := by
  induction s with
  | nil => simp [split]
  | cons c s ih =>
    obtain ⟨p, ps, hp⟩ := List.exists_cons_of_ne_nil (split_ne_nil sep s)
    rw [hp, List.forall_mem_cons] at ih
    rw [split, hp]
    dsimp only
    split
    · exact List.forall_mem_cons.2 ⟨List.not_mem_nil, List.forall_mem_cons.2 ih⟩
    · rename_i hc
      refine List.forall_mem_cons.2 ⟨?_, ih.2⟩
      exact List.not_mem_cons_of_ne_of_not_mem (Ne.symm hc) ih.1

/-- A separator at the end separates an empty piece. -/
theorem split_append_sep (sep : Char) (s : List Char) :
    split sep (s ++ [sep]) = split sep s ++ [[]] := split_append sep s []

theorem join_cons_cons (sep l m : List Char) (ms : List (List Char)) :
    join sep (l :: m :: ms) = l ++ (sep ++ join sep (m :: ms)) :=
  List.append_assoc l sep _

/-- Pieces without the separator come apart again. -/
theorem split_join {sep : Char} {ls : List (List Char)} (hne : ls ≠ []) (h : ∀ l ∈ ls, sep ∉ l) :
    split sep (join [sep] ls) = ls := by
  induction ls with
  | nil => exact absurd rfl hne
  | cons l ls ih =>
    have hl := h l List.mem_cons_self
    cases ls with
    | nil => exact split_of_not_mem hl
    | cons m ms =>
      rw [join_cons_cons, List.singleton_append, split_append_cons hl,
        ih (List.cons_ne_nil m ms) fun x hx => h x (List.mem_cons_of_mem l hx)]

theorem mem_join {c : Char} {sep : List Char} {ls : List (List Char)} (h : c ∈ join sep ls) :
    c ∈ sep ∨ ∃ l ∈ ls, c ∈ l := by
  induction ls with
  | nil => exact absurd h List.not_mem_nil
  | cons l ls ih =>
    cases ls with
    | nil => exact .inr ⟨l, List.mem_cons_self, h⟩
    | cons m ms =>
      rw [join_cons_cons, List.mem_append, List.mem_append] at h
      rcases h with h | h | h
      · exact .inr ⟨l, List.mem_cons_self, h⟩
      · exact .inl h
      · rcases ih h with hs | ⟨x, hx, hc⟩
        · exact .inl hs
        · exact .inr ⟨x, List.mem_cons_of_mem l hx, hc⟩

theorem mem_join_of_mem {c : Char} {l : List Char} {ls : List (List Char)} (sep : List Char)
    (hl : l ∈ ls) (hc : c ∈ l) : c ∈ join sep ls := by
  induction ls with
  | nil => exact absurd hl List.not_mem_nil
  | cons m ms ih =>
    cases ms with
    | nil => rwa [List.mem_singleton.1 hl] at hc
    | cons m' ms =>
      rw [join_cons_cons, List.mem_append, List.mem_append]
      rcases List.mem_cons.1 hl with rfl | hl
      · exact .inl hc
      · exact .inr (.inr (ih hl))

/-- Joined pieces are the first one and the others, each behind its separator. -/
theorem join_cons_eq_flatMap (sep l : List Char) (ls : List (List Char)) :
    join sep (l :: ls) = l ++ ls.flatMap (sep ++ ·) := by
  induction ls generalizing l with
  | nil => exact (List.append_nil l).symm
  | cons m ms ih => rw [join_cons_cons, ih m, List.flatMap_cons, List.append_assoc]

end Blockscript.Text
