import Blockscript.Proofs.Arguments.WellFormed

/-!
# Argument lists that survive writing

A list that was read is written and read back as it is (`read_display_read`). For any list this is
so exactly if its names are names, its values are tight, all values but the last leave the scan in
the open, and behind no comma that separates in a value an argument opens (`read_display_iff`). The
last condition is about the value as it stands; the scan cuts it into pieces and asks each of them
(`forall_tail_piecesFrom_iff`).
-/

namespace Blockscript.Arguments

open Text

/-! ## Arguments inside of values -/

/-- Whether a text opens an argument: with a name and a colon, whatever blanks stand around the
name. -/
def OpensArgument (s : List Char) : Prop :=
  ∃ b n b' v, Blanks b ∧ IsWordOf isName n ∧ Blanks b' ∧ s = b ++ (n ++ (b' ++ ':' :: v))

/-- Whether an argument opens behind a comma of a value that the scan meets in the open. -/
def HoldsArgument (value : List Char) : Prop :=
  ∃ s t, value = s ++ ',' :: t ∧ Closed s ∧ OpensArgument t

theorem named?_eq_none_iff {s : List Char} : named? s = none ↔ ¬OpensArgument s := by
  rw [Option.eq_none_iff_forall_ne_some]
  constructor
  · rintro h ⟨b, n, b', v, hopen⟩
    exact h (n, v) (named?_eq_some_iff.2 ⟨b, b', hopen⟩)
  · rintro h ⟨n, v⟩ hs
    obtain ⟨b, b', hopen⟩ := named?_eq_some_iff.1 hs
    exact h ⟨b, n, b', v, hopen⟩

/-- What opens an argument holds no comma, so that the first piece of a text opens one if the text
does. -/
theorem named?_head_pieces {s q : List Char} {qs : List (List Char)} (h : pieces s = q :: qs) :
    named? q = none ↔ named? s = none := by
  constructor
  · intro hq
    rw [named?_eq_none_iff]
    rintro ⟨b, n, b', v, hb, hn, hb', rfl⟩
    obtain ⟨r, rs, hv⟩ := List.exists_cons_of_ne_nil (piecesFrom_ne_nil (.plain 0) v)
    have hs := pieces_plain_append (isPlain_of_mem_opening hb hn hb') hv
    have htext : b ++ (n ++ (b' ++ ':' :: v)) = b ++ (n ++ (b' ++ [':'])) ++ v := by simp
    rw [htext, hs] at h
    obtain ⟨rfl, -⟩ := List.cons.inj h
    have hopen : named? (b ++ (n ++ (b' ++ [':'])) ++ r) = some (n, r) :=
      named?_eq_some_iff.2 ⟨b, b', hb, hn, hb', by simp⟩
    rw [hq] at hopen
    cases hopen
  · intro hs
    have htext : q ++ qs.flatMap ([','] ++ ·) = s := by
      rw [← join_cons_eq_flatMap, ← h, join_pieces]
    rw [← htext] at hs
    exact unnamed_of_append hs

/-- The later pieces open no argument exactly if no comma that separates has one behind it. -/
theorem forall_tail_piecesFrom_iff (p : Position) (value : List Char) :
    (∀ q ∈ (piecesFrom p value).tail, named? q = none) ↔
      ∀ s t, value = s ++ ',' :: t → p.after s = .plain 0 → named? t = none := by
  induction value generalizing p with
  | nil => exact ⟨fun _ s t h => absurd h.symm (by simp), fun _ q hq => absurd hq List.not_mem_nil⟩
  | cons c r ih =>
    by_cases h : p = .plain 0 ∧ c = ','
    · -- The scan separates here: what follows is the next piece, and pieces after it.
      obtain ⟨rfl, rfl⟩ := h
      obtain ⟨q, qs, hr⟩ := List.exists_cons_of_ne_nil (piecesFrom_ne_nil (.plain 0) r)
      have htail := ih (.plain 0)
      rw [hr, List.tail_cons] at htail
      rw [piecesFrom_comma, List.tail_cons, show pieces r = q :: qs from hr, List.forall_mem_cons,
        named?_head_pieces hr, htail]
      constructor
      · rintro ⟨hfirst, hlater⟩ s t heq hs
        cases s with
        | nil => exact (List.cons.inj heq).2 ▸ hfirst
        | cons d s =>
          obtain ⟨rfl, rfl⟩ := List.cons.inj heq
          exact hlater s t rfl hs
      · intro hall
        exact ⟨hall [] r rfl rfl, fun s t heq hs => hall (',' :: s) t (by rw [heq]; rfl) hs⟩
    · obtain ⟨q, qs, hr⟩ := List.exists_cons_of_ne_nil (piecesFrom_ne_nil (p.next c) r)
      have htail := ih (p.next c)
      rw [hr, List.tail_cons] at htail
      rw [piecesFrom_cons h hr, List.tail_cons, htail]
      constructor
      · intro hlater s t heq hs
        cases s with
        | nil => exact absurd ⟨hs, (List.cons.inj heq).1⟩ h
        | cons d s =>
          obtain ⟨rfl, rfl⟩ := List.cons.inj heq
          exact hlater s t rfl hs
      · exact fun hall s t heq hs => hall (c :: s) t (by rw [heq]; rfl) hs

theorem sound_iff {name value : List Char} :
    Sound name value ↔ IsWordOf isName name ∧ ¬HoldsArgument value := by
  have hpieces := forall_tail_piecesFrom_iff (.plain 0) value
  constructor
  · rintro ⟨hname, hunnamed⟩
    refine ⟨hname, ?_⟩
    rintro ⟨s, t, heq, hs, hopen⟩
    exact named?_eq_none_iff.1 (hpieces.1 hunnamed s t heq hs) hopen
  · rintro ⟨hname, hholds⟩
    refine ⟨hname, hpieces.2 fun s t heq hs => named?_eq_none_iff.2 fun hopen => ?_⟩
    exact hholds ⟨s, t, heq, hs, hopen⟩

/-! ## Writing and reading -/

theorem read_display_eq_iff {args : List CallArg} :
    read (display args).toList = args ↔ WellFormed args := by
  rw [display, String.toList_ofList]
  exact ⟨fun h => h ▸ wellFormed_read (write args), read_write⟩

/-- **Reading settles a list.** Whatever a text lists, writing that list and reading it again gives
the same names and values in the same order. -/
theorem read_display_read (text : String) :
    read (display (read text.toList)).toList = read text.toList :=
  read_display_eq_iff.2 (wellFormed_read text.toList)

/-- **Lists that survive writing.** Reading a written list gives the list exactly if its names are
names, its values are tight and leave the scan in the open, as far as an argument follows, and no
value holds an argument of its own. -/
theorem read_display_iff (args : List CallArg) :
    read (display args).toList = args ↔
      (∀ a ∈ args, IsWordOf isName a.name.toList) ∧
        (∀ a ∈ args, trim a.value.toList = a.value.toList) ∧
        (∀ a ∈ args.dropLast, Closed a.value.toList) ∧
        ∀ a ∈ args, ¬HoldsArgument a.value.toList := by
  rw [read_display_eq_iff]
  constructor
  · rintro ⟨htight, hsound, hclosed⟩
    exact ⟨fun a ha => (hsound a ha).name, fun a ha => (htight a ha).trim_eq, hclosed,
      fun a ha => (sound_iff.1 (hsound a ha)).2⟩
  · rintro ⟨hname, htrim, hclosed, hholds⟩
    exact ⟨fun a ha => tight_of_trim_eq (htrim a ha),
      fun a ha => sound_iff.2 ⟨hname a ha, hholds a ha⟩, hclosed⟩

/-- Brackets keep an argument inside of a value; a comma alone does no harm. -/
example : read (display [⟨"a", "max(x, y: 1)"⟩, ⟨"b", "c, d"⟩]).toList =
    [⟨"a", "max(x, y: 1)"⟩, ⟨"b", "c, d"⟩] := by
  decide

end Blockscript.Arguments
