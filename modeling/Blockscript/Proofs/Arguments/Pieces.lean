import Blockscript.Proofs.Text.Reading
import Blockscript.Proofs.Text.Names
import Blockscript.Script.Arguments

/-!
# Cutting argument lists

`Position.after` is where a scan ends. The pieces of two texts one after the other are the pieces
of each, with the last of the first and the first of the second grown together
(`piecesFrom_append`);
at a separating comma nothing grows together (`pieces_append_comma`). Every piece is whole
(`isCut_pieces`): it holds no separating comma, and all but the last leave the scan in the open.
-/

namespace Blockscript.Arguments

open Text

/-- Where a scan from `p` is after a text. -/
def Position.after (p : Position) (s : List Char) : Position := s.foldl Position.next p

@[simp] theorem Position.after_cons (p : Position) (c : Char) (s : List Char) :
    p.after (c :: s) = (p.next c).after s := rfl

@[simp] theorem Position.after_append (p : Position) (s t : List Char) :
    p.after (s ++ t) = (p.after s).after t := List.foldl_append

/-- Whether a text leaves a scan in the open, outside of quotes and brackets. -/
def Closed (s : List Char) : Prop := Position.after (.plain 0) s = .plain 0

instance : DecidablePred Closed := fun _ => inferInstanceAs (Decidable (_ = _))

/-! ## Pieces of texts one after the other -/

/-- Two lists of pieces, with the last piece of the first and the first of the second as one. -/
def glue : List (List Char) → List (List Char) → List (List Char)
  | [], qs => qs
  | [p], [] => [p]
  | [p], q :: qs => (p ++ q) :: qs
  | p :: p' :: ps, qs => p :: glue (p' :: ps) qs

theorem glue_nil_cons {qs : List (List Char)} (h : qs ≠ []) : glue [[]] qs = qs := by
  obtain ⟨q, qs, rfl⟩ := List.exists_cons_of_ne_nil h
  rfl

theorem glue_cons {ps : List (List Char)} (h : ps ≠ []) (p : List Char) (qs : List (List Char)) :
    glue (p :: ps) qs = p :: glue ps qs := by
  obtain ⟨p', ps, rfl⟩ := List.exists_cons_of_ne_nil h
  rfl

/-- Nothing grows together with an empty piece. -/
theorem glue_nil_head {ps : List (List Char)} (h : ps ≠ []) (qs : List (List Char)) :
    glue ps ([] :: qs) = ps ++ qs := by
  induction ps with
  | nil => exact absurd rfl h
  | cons p ps ih =>
    cases ps with
    | nil => rw [glue, List.append_nil]; rfl
    | cons p' ps => rw [glue_cons (List.cons_ne_nil p' ps), ih (List.cons_ne_nil p' ps)]; rfl

theorem glue_cons_head (c : Char) (p : List Char) (ps qs : List (List Char)) {r : List Char}
    {rs : List (List Char)} (h : glue (p :: ps) qs = r :: rs) :
    glue ((c :: p) :: ps) qs = (c :: r) :: rs := by
  cases ps with
  | nil =>
    cases qs with
    | nil => cases h; rfl
    | cons q qs => cases h; rfl
  | cons p' ps => cases h; rfl

theorem piecesFrom_comma (s : List Char) :
    piecesFrom (.plain 0) (',' :: s) = [] :: pieces s := by
  rw [piecesFrom, if_pos ⟨rfl, rfl⟩]
  rfl

theorem piecesFrom_cons {p : Position} {c : Char} (h : ¬(p = .plain 0 ∧ c = ','))
    {s q : List Char} {qs : List (List Char)} (hs : piecesFrom (p.next c) s = q :: qs) :
    piecesFrom p (c :: s) = (c :: q) :: qs := by
  rw [piecesFrom, if_neg h, hs]

theorem piecesFrom_append (p : Position) (s t : List Char) :
    piecesFrom p (s ++ t) = glue (piecesFrom p s) (piecesFrom (p.after s) t) := by
  induction s generalizing p with
  | nil => exact (glue_nil_cons (piecesFrom_ne_nil p t)).symm
  | cons c s ih =>
    rw [List.cons_append]
    by_cases h : p = .plain 0 ∧ c = ','
    · obtain ⟨rfl, rfl⟩ := h
      have hg : pieces s ≠ [] := piecesFrom_ne_nil _ s
      rw [piecesFrom_comma, piecesFrom_comma, glue_cons hg]
      exact congrArg _ (ih (.plain 0))
    · obtain ⟨q, qs, hs⟩ := List.exists_cons_of_ne_nil (piecesFrom_ne_nil (p.next c) s)
      obtain ⟨r, rs, hr⟩ := List.exists_cons_of_ne_nil (piecesFrom_ne_nil (p.next c) (s ++ t))
      rw [piecesFrom_cons h hs, piecesFrom_cons h hr, Position.after_cons]
      rw [ih, hs] at hr
      exact (glue_cons_head c q qs _ hr).symm

/-- A comma in the open separates. -/
theorem pieces_append_comma {s : List Char} (h : Closed s) (t : List Char) :
    pieces (s ++ ',' :: t) = pieces s ++ pieces t := by
  rw [pieces, piecesFrom_append, show Position.after (.plain 0) s = .plain 0 from h,
    piecesFrom_comma, glue_nil_head (piecesFrom_ne_nil _ s)]
  rfl

/-! ## Text without a meaning to the scan -/

/-- The characters that move a scan in the open, or that separate there. -/
def marks : List Char := [',', '"', '(', '[', '{', ')', ']', '}']

/-- Whether a character leaves every scan in the open where it is. -/
def IsPlain (c : Char) : Prop := c ∉ marks

theorem isPlain_of_class {p : Char → Bool} (hp : ∀ d ∈ marks, p d = false) {c : Char}
    (hc : p c = true) : IsPlain c := fun hm => by
  rw [hp c hm] at hc
  cases hc

theorem isPlain_of_isBlank {c : Char} (h : isBlank c = true) : IsPlain c :=
  isPlain_of_class (by decide) h

theorem isPlain_of_isName {c : Char} (h : isName c = true) : IsPlain c :=
  isPlain_of_class (by decide) h

theorem isPlain_colon : IsPlain ':' := by unfold IsPlain; decide

theorem IsPlain.next_eq {c : Char} (h : IsPlain c) (d : ℕ) :
    Position.next (.plain d) c = .plain d := by
  simp only [IsPlain, marks, List.mem_cons, List.not_mem_nil, or_false, not_or] at h
  obtain ⟨-, hq, ho, ho', ho'', hc, hc', hc''⟩ := h
  rw [Position.next, if_neg hq, if_neg (by simp [ho, ho', ho'']), if_neg (by simp [hc, hc', hc''])]

theorem after_of_isPlain {s : List Char} (h : ∀ c ∈ s, IsPlain c) (d : ℕ) :
    Position.after (.plain d) s = .plain d := by
  induction s with
  | nil => rfl
  | cons c s ih =>
    rw [Position.after_cons, (h c List.mem_cons_self).next_eq]
    exact ih fun x hx => h x (List.mem_cons_of_mem c hx)

/-- Text without commas stays in one piece. -/
theorem piecesFrom_of_not_mem {s : List Char} (h : ',' ∉ s) (p : Position) :
    piecesFrom p s = [s] := by
  induction s generalizing p with
  | nil => rfl
  | cons c s ih =>
    rw [List.mem_cons, not_or] at h
    exact piecesFrom_cons (fun hc => h.1 hc.2.symm) (ih h.2 _)

/-- Plain text in front belongs to the first piece. -/
theorem pieces_plain_append {s : List Char} (h : ∀ c ∈ s, IsPlain c) {t q : List Char}
    {qs : List (List Char)} (ht : pieces t = q :: qs) : pieces (s ++ t) = (s ++ q) :: qs := by
  have hs : ',' ∉ s := fun hc => h ',' hc (by decide)
  rw [pieces, piecesFrom_append, piecesFrom_of_not_mem hs, after_of_isPlain h,
    show piecesFrom (.plain 0) t = q :: qs from ht]
  rfl

theorem closed_plain_append {s : List Char} (h : ∀ c ∈ s, IsPlain c) (t : List Char) :
    Closed (s ++ t) ↔ Closed t := by
  rw [Closed, Position.after_append, after_of_isPlain h]
  rfl

/-- Blanks end no quote and no bracket. -/
theorem eq_plain_of_after_blanks {b : List Char} (hb : Blanks b) {p : Position} {d : ℕ}
    (h : p.after b = .plain d) : p = .plain d := by
  induction b generalizing p with
  | nil => exact h
  | cons c b ih =>
    have hc := hb c List.mem_cons_self
    have hn : p.next c = .plain d := ih (fun x hx => hb x (List.mem_cons_of_mem c hx)) h
    cases p with
    | plain e => rwa [(isPlain_of_isBlank hc).next_eq] at hn
    | quoted e =>
      have hq : c ≠ '"' := fun h => absurd (h ▸ hc) (by decide)
      have hs : c ≠ '\\' := fun h => absurd (h ▸ hc) (by decide)
      rw [Position.next, if_neg hs, if_neg hq] at hn
      cases hn
    | escaped e => cases hn

/-! ## Whole pieces -/

/-- Whether a text holds no separating comma. -/
def Whole (s : List Char) : Prop := pieces s = [s]

/-- Whether a list is what cutting gives: whole pieces, all but the last of them closed. -/
def IsCut : List (List Char) → Prop
  | [] => True
  | p :: ps => Whole p ∧ (ps ≠ [] → Closed p) ∧ IsCut ps

/-- The pieces of a cut list joined with commas are the list. -/
theorem pieces_join {ps : List (List Char)} (hne : ps ≠ []) (h : IsCut ps) :
    pieces (join [','] ps) = ps := by
  induction ps with
  | nil => exact absurd rfl hne
  | cons p ps ih =>
    obtain ⟨hw, hc, hps⟩ := h
    cases ps with
    | nil => exact hw
    | cons q qs =>
      rw [join_cons_cons, List.singleton_append, pieces_append_comma (hc (List.cons_ne_nil q qs)),
        ih (List.cons_ne_nil q qs) hps, show pieces p = [p] from hw]
      rfl

/-- What a scan from `p` cuts: a first piece without a separating comma for it, and a cut list. -/
theorem piecesFrom_cut (p : Position) (s : List Char) :
    ∃ q qs, piecesFrom p s = q :: qs ∧ piecesFrom p q = [q] ∧
      (qs ≠ [] → p.after q = .plain 0) ∧ IsCut qs := by
  induction s generalizing p with
  | nil => exact ⟨[], [], rfl, rfl, fun h => absurd rfl h, trivial⟩
  | cons c s ih =>
    obtain ⟨q, qs, hs, hq, hc, hqs⟩ := ih (p.next c)
    by_cases h : p = .plain 0 ∧ c = ','
    · obtain ⟨rfl, rfl⟩ := h
      refine ⟨[], q :: qs, ?_, rfl, fun _ => rfl, hq, hc, hqs⟩
      rw [piecesFrom_comma]
      exact congrArg _ hs
    · exact ⟨c :: q, qs, piecesFrom_cons h hs, piecesFrom_cons h hq, hc, hqs⟩

/-- Cutting gives a cut list. -/
theorem isCut_pieces (s : List Char) : IsCut (pieces s) := by
  obtain ⟨q, qs, hs, hq, hc, hqs⟩ := piecesFrom_cut (.plain 0) s
  rw [pieces, hs]
  exact ⟨hq, hc, hqs⟩

theorem mem_of_mem_pieces {s q : List Char} (hq : q ∈ pieces s) {c : Char} (hc : c ∈ q) :
    c ∈ s := by
  rw [← join_pieces s]
  exact mem_join_of_mem _ hq hc

end Blockscript.Arguments
