import Blockscript.Proofs.Arguments.WellFormed

/-!
# Commas that separate

Where an argument list is cut, said without a scan: `Reaches d s` builds the texts that end outside
of double quotes and under `d` brackets, out of characters and whole quoted texts. A comma separates
exactly if the text in front of it reaches depth zero (`pieces_cut_exactly`), so the pieces of a
text are those of its parts, and no piece can be cut any further.
-/

namespace Blockscript.Arguments

open Text

/-! ## Depths -/

/-- What may stand between two double quotes: a backslash takes the next character with it, and no
quote stands alone. -/
inductive Literal : List Char → Prop
  | nil : Literal []
  | char {c : Char} {s : List Char} (hquote : c ≠ '"') (hescape : c ≠ '\\') (h : Literal s) :
    Literal (c :: s)
  | escaped (c : Char) {s : List Char} (h : Literal s) : Literal ('\\' :: c :: s)

/-- Whether a text ends outside of quotes and under so many brackets. A closing bracket that nothing
has opened leaves the depth at zero. -/
inductive Reaches : ℕ → List Char → Prop
  | nil : Reaches 0 []
  | opening {d : ℕ} {s : List Char} {c : Char} (h : Reaches d s) (hc : c ∈ ['(', '[', '{']) :
    Reaches (d + 1) (s ++ [c])
  | closing {d : ℕ} {s : List Char} {c : Char} (h : Reaches d s) (hc : c ∈ [')', ']', '}']) :
    Reaches (d - 1) (s ++ [c])
  | literal {d : ℕ} {s body : List Char} (h : Reaches d s) (hbody : Literal body) :
    Reaches d (s ++ '"' :: (body ++ ['"']))
  | other {d : ℕ} {s : List Char} {c : Char} (h : Reaches d s)
    (hc : c ∉ ['"', '(', '[', '{', ')', ']', '}']) : Reaches d (s ++ [c])

variable {s body : List Char} {d : ℕ} {c : Char} {p : Position}

theorem Literal.append {t : List Char} (h : Literal s) (ht : Literal t) : Literal (s ++ t) := by
  induction h with
  | nil => exact ht
  | char hquote hescape _ ih => exact ih.char hquote hescape
  | escaped c _ ih => exact ih.escaped c

theorem Literal.after_eq (h : Literal body) (d : ℕ) :
    Position.after (.quoted d) body = .quoted d := by
  induction h with
  | nil => rfl
  | char hquote hescape _ ih =>
    rw [Position.after_cons, Position.next, if_neg hescape, if_neg hquote, ih]
  | escaped c _ ih => exact ih

/-- What a position of the scan says about the text behind it. -/
def Position.Says : Position → List Char → Prop
  | .plain d, s => Reaches d s
  | .quoted d, s => ∃ a body, s = a ++ '"' :: body ∧ Reaches d a ∧ Literal body
  | .escaped d, s => ∃ a body, s = a ++ '"' :: (body ++ ['\\']) ∧ Reaches d a ∧ Literal body

theorem Position.Says.next (h : p.Says s) (c : Char) : (p.next c).Says (s ++ [c]) := by
  cases p with
  | plain d =>
    rw [Position.next]
    split_ifs with hquote hopen hclose
    · exact ⟨s, [], by rw [hquote], h, .nil⟩
    · exact Reaches.opening h (by simpa using hopen)
    · exact Reaches.closing h (by simpa using hclose)
    · refine Reaches.other h ?_
      simp only [not_or] at hopen hclose
      simp [hquote, hopen, hclose]
  | quoted d =>
    obtain ⟨a, body, rfl, ha, hbody⟩ := h
    rw [Position.next]
    split_ifs with hescape hquote
    · exact ⟨a, body, by simp [hescape], ha, hbody⟩
    · have hreach := ha.literal hbody
      rw [hquote]
      simpa [Position.Says] using hreach
    · exact ⟨a, body ++ [c], by simp, ha, hbody.append (.char hquote hescape .nil)⟩
  | escaped d =>
    obtain ⟨a, body, rfl, ha, hbody⟩ := h
    exact ⟨a, body ++ ['\\', c], by simp, ha, hbody.append (.escaped c .nil)⟩

theorem says_after (s : List Char) : (Position.after (.plain 0) s).Says s := by
  induction s using List.reverseRecOn with
  | nil => exact Reaches.nil
  | append_singleton s c ih =>
    rw [Position.after_append]
    exact ih.next c

/-- **The scan** tells depths: it is in the open under `d` brackets behind the texts that reach `d`,
and behind no others. -/
theorem after_eq_plain_iff : Position.after (.plain 0) s = .plain d ↔ Reaches d s := by
  constructor
  · intro h
    have hsays := says_after s
    rwa [h] at hsays
  · intro h
    induction h with
    | nil => rfl
    | opening _ hc ih =>
      rw [Position.after_append, ih]
      rw [List.mem_cons, List.mem_cons, List.mem_singleton] at hc
      rcases hc with rfl | rfl | rfl <;> rfl
    | closing _ hc ih =>
      rw [Position.after_append, ih]
      rw [List.mem_cons, List.mem_cons, List.mem_singleton] at hc
      rcases hc with rfl | rfl | rfl <;> rfl
    | literal _ hbody ih =>
      rw [Position.after_append, ih, Position.after_cons, Position.after_append]
      rw [show Position.next (.plain _) '"' = .quoted _ from rfl, hbody.after_eq]
      rfl
    | @other d s c _ hc ih =>
      rw [Position.after_append, ih]
      simp only [List.mem_cons, List.not_mem_nil, or_false, not_or] at hc
      obtain ⟨hquote, ho, ho', ho'', hcl, hcl', hcl''⟩ := hc
      rw [Position.after_cons, Position.next, if_neg hquote, if_neg (by simp [ho, ho', ho'']),
        if_neg (by simp [hcl, hcl', hcl''])]
      rfl

theorem closed_iff_reaches : Closed s ↔ Reaches 0 s := after_eq_plain_iff

/-! ## Cuts -/

theorem IsCut.whole {ps : List (List Char)} (h : IsCut ps) : ∀ p ∈ ps, Whole p := by
  induction ps with
  | nil => exact fun p hp => absurd hp List.not_mem_nil
  | cons p ps ih => exact List.forall_mem_cons.2 ⟨h.1, ih h.2.2⟩

theorem IsCut.closed_of_append {ps qs : List (List Char)} (h : IsCut (ps ++ qs)) (hqs : qs ≠ []) :
    ∀ p ∈ ps, Closed p := by
  induction ps with
  | nil => exact fun p hp => absurd hp List.not_mem_nil
  | cons p ps ih =>
    obtain ⟨-, hc, hps⟩ := h
    exact List.forall_mem_cons.2 ⟨hc (List.append_ne_nil_of_right_ne_nil ps hqs), ih hps⟩

theorem closed_join {ps : List (List Char)} (h : ∀ p ∈ ps, Closed p) : Closed (join [','] ps) := by
  cases ps with
  | nil => rfl
  | cons p ps =>
    obtain ⟨hp, hps⟩ := List.forall_mem_cons.1 h
    rw [join_cons_eq_flatMap]
    exact closed_append_flatMap hp hps

/-- A text without a separating comma has none in the open. -/
theorem Whole.not_closed {a b : List Char} (h : Whole (a ++ ',' :: b)) : ¬ Closed a := by
  intro ha
  rw [Whole, pieces_append_comma ha] at h
  have hlength := congrArg List.length h
  have hne := List.length_pos_of_ne_nil (piecesFrom_ne_nil (.plain 0) a)
  have hne' := List.length_pos_of_ne_nil (piecesFrom_ne_nil (.plain 0) b)
  rw [List.length_append, List.length_singleton] at hlength
  unfold pieces at hlength
  omega

/-- Whether the comma between two texts stands between two pieces of the whole. -/
def Separates (a b : List Char) : Prop :=
  ∃ ps qs, ps ≠ [] ∧ qs ≠ [] ∧ pieces (a ++ ',' :: b) = ps ++ qs ∧ join [','] ps = a ∧
    join [','] qs = b

theorem separates_iff {a b : List Char} : Separates a b ↔ Closed a := by
  constructor
  · rintro ⟨ps, qs, -, hqs, hpieces, rfl, -⟩
    have hcut := isCut_pieces (join [','] ps ++ ',' :: b)
    rw [hpieces] at hcut
    exact closed_join (hcut.closed_of_append hqs)
  · intro ha
    exact ⟨pieces a, pieces b, piecesFrom_ne_nil _ a, piecesFrom_ne_nil _ b,
      pieces_append_comma ha b, join_pieces a, join_pieces b⟩

/-- **Cutting is lossless and exact.** The pieces of a text joined with commas are the text. A comma
separates two pieces exactly if the text in front of it ends outside of quotes and brackets; every
piece but the last ends so itself, no piece has such a comma left, and at such a comma the pieces
are those of the text in front of it and those of the text behind it. -/
theorem pieces_cut_exactly (s : List Char) :
    join [','] (pieces s) = s ∧
      (∀ a b, s = a ++ ',' :: b → (Separates a b ↔ Reaches 0 a)) ∧
      (∀ p ∈ (pieces s).dropLast, Reaches 0 p) ∧
      (∀ p ∈ pieces s, ∀ a b, p = a ++ ',' :: b → ¬ Reaches 0 a) ∧
      ∀ a b, s = a ++ ',' :: b → Reaches 0 a → pieces s = pieces a ++ pieces b := by
  have hcut := isCut_pieces s
  refine ⟨join_pieces s, fun a b _ => separates_iff.trans closed_iff_reaches, fun p hp => ?_,
    fun p hp a b hpab ha => ?_, fun a b hs ha => ?_⟩
  · have hne : pieces s ≠ [] := piecesFrom_ne_nil (.plain 0) s
    rw [← List.dropLast_append_getLast hne] at hcut
    exact closed_iff_reaches.1 (hcut.closed_of_append (List.cons_ne_nil _ _) p hp)
  · have hwhole := hcut.whole p hp
    rw [hpab] at hwhole
    exact hwhole.not_closed (closed_iff_reaches.2 ha)
  · rw [hs, pieces_append_comma (closed_iff_reaches.2 ha)]

/-- A bracket too many does not hide the commas behind it; a quote that is not closed does. -/
example : pieces "a: 1), b: \"x\\\", y\", c: \"z, d".toList =
    ["a: 1)".toList, " b: \"x\\\", y\"".toList, " c: \"z, d".toList] := by
  decide

end Blockscript.Arguments
