import Blockscript.Proofs.Arguments.Pieces

/-!
# Well-formed argument lists

An argument list is `WellFormed` if writing it loses nothing: the names are names, the values are
tight and leave the scan in the open, and no value holds a piece that opens with a name of its own.
Reading any text gives a well-formed list (`wellFormed_read`), and a well-formed list reads back
(`read_write`).
-/

namespace Blockscript.Arguments

open Text

/-! ## Pieces that open with a name -/

theorem named?_eq_some_iff {p n v : List Char} : named? p = some (n, v) ↔
    ∃ b b', Blanks b ∧ IsWordOf isName n ∧ Blanks b' ∧ p = b ++ (n ++ (b' ++ ':' :: v)) := by
  constructor
  · intro h
    obtain ⟨⟨m, r⟩, hrun, hr⟩ := Option.bind_eq_some_iff.1 h
    obtain ⟨v', hv, he⟩ := Option.map_eq_some_iff.1 hr
    obtain ⟨rfl, rfl⟩ := Prod.mk.inj he
    obtain ⟨b, hb, hp⟩ := exists_append_trimStart p
    obtain ⟨b', hb', hr'⟩ := exists_append_trimStart r
    refine ⟨b, b', hb, ⟨(of_run hrun).1, (of_run hrun).2⟩, hb', ?_⟩
    rw [hp, ← append_of_run hrun, hr', eq_append_of_expect hv]
    rfl
  · rintro ⟨b, b', hb, hn, hb', rfl⟩
    have hhead : ∀ c ∈ (b' ++ ':' :: v).head?, isName c = false := by
      intro c hc
      cases b' with
      | nil => rw [← Option.mem_some.1 hc]; decide
      | cons d b' =>
        rw [← Option.mem_some.1 hc]
        exact isName_of_isBlank (hb' d List.mem_cons_self)
    have hstart : trimStart (n ++ (b' ++ ':' :: v)) = n ++ (b' ++ ':' :: v) := by
      refine trimStart_eq_self fun c hc => ?_
      rw [List.head?_append_of_ne_nil _ hn.ne_nil] at hc
      exact isBlank_of_isName (hn.all c (List.mem_of_mem_head? hc))
    unfold named?
    rw [trimStart_append_of_blanks hb, hstart, run_append hn.all hhead hn.ne_nil, Option.bind_some]
    have hcolon : trimStart (b' ++ ':' :: v) = ':' :: v := by
      rw [trimStart_append_of_blanks hb', trimStart_cons_of_not (by decide)]
    show (expect [':'] (trimStart (b' ++ ':' :: v))).map _ = _
    rw [hcolon]
    rfl

/-- A piece stays as it was with blanks after it, or with a longer value. -/
theorem named?_append {p n v : List Char} (h : named? p = some (n, v)) (t : List Char) :
    named? (p ++ t) = some (n, v ++ t) := by
  obtain ⟨b, b', hb, hn, hb', rfl⟩ := named?_eq_some_iff.1 h
  exact named?_eq_some_iff.2 ⟨b, b', hb, hn, hb', by simp⟩

theorem unnamed_of_append {p t : List Char} (h : named? (p ++ t) = none) : named? p = none := by
  rw [Option.eq_none_iff_forall_ne_some]
  rintro ⟨n, v⟩ hs
  rw [named?_append hs t] at h
  cases h

/-! ## Gathering -/

theorem gather_cons_named {p n v : List Char} (h : named? p = some (n, v))
    (ps : List (List Char)) :
    gather (p :: ps) = ([], (n, v ++ (gather ps).1) :: (gather ps).2) := by
  rw [gather, h]

theorem gather_cons_unnamed {p : List Char} (h : named? p = none) (ps : List (List Char)) :
    gather (p :: ps) = (',' :: p ++ (gather ps).1, (gather ps).2) := by
  rw [gather, h]

/-- Pieces without a name of their own stand in front, each behind its comma. -/
theorem gather_unnamed_append {us : List (List Char)} (h : ∀ u ∈ us, named? u = none)
    (ps : List (List Char)) :
    gather (us ++ ps) = (us.flatMap ([','] ++ ·) ++ (gather ps).1, (gather ps).2) := by
  induction us with
  | nil => rfl
  | cons u us ih =>
    rw [List.cons_append, gather_cons_unnamed (h u List.mem_cons_self),
      ih fun x hx => h x (List.mem_cons_of_mem u hx), List.flatMap_cons, List.append_assoc]
    rfl

/-- Whether an argument's name is a name, and no later piece of its value opens with one. -/
structure Sound (name value : List Char) : Prop where
  name : IsWordOf isName name
  unnamed : ∀ p ∈ (pieces value).tail, named? p = none

/-- The text in front of a value has no meaning to the scan. -/
theorem isPlain_of_mem_opening {b n b' : List Char} (hb : Blanks b) (hn : IsWordOf isName n)
    (hb' : Blanks b') : ∀ c ∈ b ++ (n ++ (b' ++ [':'])), IsPlain c := by
  intro c hc
  rw [List.mem_append, List.mem_append, List.mem_append, List.mem_singleton] at hc
  rcases hc with hc | hc | hc | rfl
  · exact isPlain_of_isBlank (hb c hc)
  · exact isPlain_of_isName (hn.all c hc)
  · exact isPlain_of_isBlank (hb' c hc)
  · exact isPlain_colon

theorem closed_argument {b n v : List Char} (hb : Blanks b) (hn : IsWordOf isName n) :
    Closed (b ++ (n ++ ':' :: v)) ↔ Closed v := by
  have htext : b ++ (n ++ ':' :: v) = b ++ (n ++ ([] ++ [':'])) ++ v := by simp
  rw [htext, closed_plain_append (isPlain_of_mem_opening hb hn blanks_nil)]

theorem tail_pieces_blanks_append {b : List Char} (hb : Blanks b) (v : List Char) :
    (pieces (b ++ v)).tail = (pieces v).tail := by
  obtain ⟨q, qs, hq⟩ := List.exists_cons_of_ne_nil (piecesFrom_ne_nil (.plain 0) v)
  have hq' : pieces v = q :: qs := hq
  rw [pieces_plain_append (fun c hc => isPlain_of_isBlank (hb c hc)) hq', hq']
  rfl

/-- An argument in front of others is gathered whole. -/
theorem gather_argument {b n v : List Char} (hb : Blanks b) (h : Sound n v)
    (ps : List (List Char)) (hps : (gather ps).1 = []) :
    gather (pieces (b ++ (n ++ ':' :: v)) ++ ps) = ([], (n, v) :: (gather ps).2) := by
  obtain ⟨q, qs, hv⟩ := List.exists_cons_of_ne_nil (piecesFrom_ne_nil (.plain 0) v)
  have hp := pieces_plain_append (isPlain_of_mem_opening hb h.name blanks_nil) hv
  have hopen : named? (b ++ (n ++ ([] ++ [':'])) ++ q) = some (n, q) :=
    named?_eq_some_iff.2 ⟨b, [], hb, h.name, blanks_nil, by simp⟩
  have hus : ∀ u ∈ qs, named? u = none := by
    have hu := h.unnamed
    rwa [show pieces v = q :: qs from hv] at hu
  have hjoin : q ++ qs.flatMap ([','] ++ ·) = v := by
    rw [← join_cons_eq_flatMap, ← hv]
    exact join_pieces v
  have htext : b ++ (n ++ ':' :: v) = b ++ (n ++ ([] ++ [':'])) ++ v := by simp
  rw [htext, hp, List.cons_append, gather_cons_named hopen, gather_unnamed_append hus, hps,
    List.append_nil, hjoin]

theorem closed_append_comma {s : List Char} (h : Closed s) (t : List Char) :
    Closed (s ++ ([','] ++ t)) ↔ Closed t := by
  rw [Closed, Position.after_append, show Position.after (.plain 0) s = .plain 0 from h]
  exact Iff.rfl

theorem closed_append_flatMap {s : List Char} (hs : Closed s) {us : List (List Char)}
    (hus : ∀ u ∈ us, Closed u) : Closed (s ++ us.flatMap ([','] ++ ·)) := by
  induction us generalizing s with
  | nil => rwa [List.flatMap_nil, List.append_nil]
  | cons u us ih =>
    rw [List.flatMap_cons, List.append_assoc, closed_append_comma hs]
    exact ih (hus u List.mem_cons_self) fun x hx => hus x (List.mem_cons_of_mem u hx)

/-- What gathering a cut list gives: text in front that is made of nameless pieces, and sound
arguments. All but what stands last is closed. -/
structure Gathered (us : List (List Char)) (g : List Char × List (List Char × List Char)) :
    Prop where
  front : g.1 = us.flatMap ([','] ++ ·)
  unnamed : ∀ u ∈ us, named? u = none
  cut : IsCut us
  front_closed : g.2 ≠ [] → ∀ u ∈ us, Closed u
  sound : ∀ r ∈ g.2, Sound r.1 r.2
  closed : ∀ r ∈ g.2.dropLast, Closed r.2

theorem Gathered.cons_unnamed {us : List (List Char)} {p : List Char} {ps : List (List Char)}
    (h : Gathered us (gather ps)) (hp : named? p = none) (hcut : IsCut (p :: ps))
    (hus : us ≠ [] → ps ≠ []) : Gathered (p :: us) (gather (p :: ps)) := by
  obtain ⟨hw, hc, -⟩ := hcut
  rw [gather_cons_unnamed hp]
  refine ⟨?_, List.forall_mem_cons.2 ⟨hp, h.unnamed⟩, ⟨hw, fun hne => hc (hus hne), h.cut⟩, ?_,
    h.sound, h.closed⟩
  · rw [List.flatMap_cons, h.front]
    rfl
  · intro hne
    refine List.forall_mem_cons.2 ⟨hc ?_, h.front_closed hne⟩
    rintro rfl
    exact hne rfl

theorem Gathered.cons_named {us : List (List Char)} {p n v : List Char} {ps : List (List Char)}
    (h : Gathered us (gather ps)) (hp : named? p = some (n, v)) (hcut : IsCut (p :: ps))
    (hus : us ≠ [] → ps ≠ []) : Gathered [] (gather (p :: ps)) := by
  obtain ⟨hw, hc, -⟩ := hcut
  obtain ⟨b, b', hb, hn, hb', rfl⟩ := named?_eq_some_iff.1 hp
  have hplain := isPlain_of_mem_opening hb hn hb'
  have htext : b ++ (n ++ (b' ++ ':' :: v)) = b ++ (n ++ (b' ++ [':'])) ++ v := by simp
  rw [htext] at hw hc
  have hv : Whole v := by
    obtain ⟨q, qs, hq⟩ := List.exists_cons_of_ne_nil (piecesFrom_ne_nil (.plain 0) v)
    have hq' : pieces v = q :: qs := hq
    rw [Whole, pieces_plain_append hplain hq'] at hw
    obtain ⟨h1, rfl⟩ := List.cons.inj hw
    rw [Whole, hq', List.append_cancel_left h1]
  have hclosed : ps ≠ [] → Closed v := fun hne => (closed_plain_append hplain v).1 (hc hne)
  rw [gather_cons_named hp, h.front]
  refine ⟨rfl, fun u hu => absurd hu List.not_mem_nil, trivial,
    fun _ u hu => absurd hu List.not_mem_nil, List.forall_mem_cons.2 ⟨⟨hn, ?_⟩, h.sound⟩, ?_⟩
  · have hcut' : IsCut (v :: us) := ⟨hv, fun hne => hclosed (hus hne), h.cut⟩
    rw [← join_cons_eq_flatMap, pieces_join (List.cons_ne_nil v us) hcut']
    exact h.unnamed
  · intro r hr
    rcases hg : (gather ps).2 with _ | ⟨a, as⟩
    · rw [hg] at hr
      exact absurd hr List.not_mem_nil
    · rw [hg, List.dropLast_cons_of_ne_nil (List.cons_ne_nil a as)] at hr
      have hne : (gather ps).2 ≠ [] := hg ▸ List.cons_ne_nil a as
      rcases List.mem_cons.1 hr with rfl | hr
      · have hps : ps ≠ [] := by rintro rfl; exact hne rfl
        exact closed_append_flatMap (hclosed hps) (h.front_closed hne)
      · exact h.closed r (hg ▸ hr)

/-- Gathering a cut list gives sound arguments. -/
theorem exists_gathered {ps : List (List Char)} (h : IsCut ps) :
    ∃ us, (us ≠ [] → ps ≠ []) ∧ Gathered us (gather ps) := by
  induction ps with
  | nil => exact ⟨[], id, rfl, by simp, trivial, by simp, by simp [gather], by simp [gather]⟩
  | cons p ps ih =>
    obtain ⟨us, hus, hg⟩ := ih h.2.2
    rcases hp : named? p with _ | ⟨n, v⟩
    · exact ⟨p :: us, fun _ => List.cons_ne_nil p ps, hg.cons_unnamed hp h hus⟩
    · exact ⟨[], fun _ => List.cons_ne_nil p ps, hg.cons_named hp h hus⟩

/-! ## Well-formed lists -/

/-- Whether a list is one that reading gives. -/
structure WellFormed (args : List CallArg) : Prop where
  tight : ∀ a ∈ args, Tight a.value.toList
  sound : ∀ a ∈ args, Sound a.name.toList a.value.toList
  closed : ∀ a ∈ args.dropLast, Closed a.value.toList

/-- A gathered argument with its value trimmed. -/
def settle (r : List Char × List Char) : CallArg := ⟨String.ofList r.1, String.ofList (trim r.2)⟩

theorem read_eq (text : List Char) :
    read text = (gather (pieces (unwrap (trim text)))).2.map settle := by
  unfold read
  split
  · rename_i h
    rw [h]
    rfl
  · rfl

theorem unnamed_of_glue {t : List Char} {us : List (List Char)}
    (h : ∀ u ∈ glue us [t], named? u = none) : ∀ u ∈ us, named? u = none := by
  induction us with
  | nil => exact fun u hu => absurd hu List.not_mem_nil
  | cons u us ih =>
    cases us with
    | nil =>
      intro x hx
      rw [List.mem_singleton.1 hx]
      exact unnamed_of_append (h (u ++ t) List.mem_cons_self)
    | cons u' us =>
      rw [glue_cons (List.cons_ne_nil u' us)] at h
      exact List.forall_mem_cons.2
        ⟨h u List.mem_cons_self, ih fun x hx => h x (List.mem_cons_of_mem u hx)⟩

theorem Sound.trim {n v : List Char} (h : Sound n v) : Sound n (trim v) := by
  refine ⟨h.name, ?_⟩
  obtain ⟨b, b', hb, hb', hv⟩ := exists_append_trim_append v
  obtain ⟨q, qs, hq⟩ := List.exists_cons_of_ne_nil (piecesFrom_ne_nil (.plain 0) (Text.trim v))
  have hcomma : ',' ∉ b' := fun hc => absurd (hb' _ hc) (by decide)
  have hp : pieces (Text.trim v ++ b') = glue (q :: qs) [b'] := by
    rw [pieces, piecesFrom_append, piecesFrom_of_not_mem hcomma, hq]
  have hu := h.unnamed
  rw [show pieces (Text.trim v) = q :: qs from hq, List.tail_cons]
  cases qs with
  | nil => exact fun p hp => absurd hp List.not_mem_nil
  | cons q' qs =>
    rw [hv, pieces_plain_append (fun c hc => isPlain_of_isBlank (hb c hc)) hp] at hu
    exact unnamed_of_glue hu

theorem closed_trim {v : List Char} (h : Closed v) : Closed (trim v) := by
  obtain ⟨b, b', hb, hb', hv⟩ := exists_append_trim_append v
  rw [hv, closed_plain_append fun c hc => isPlain_of_isBlank (hb c hc), Closed,
    Position.after_append] at h
  exact eq_plain_of_after_blanks hb' h

/-- **Reading** gives a well-formed list, whatever the text. -/
theorem wellFormed_read (text : List Char) : WellFormed (read text) := by
  obtain ⟨us, -, hg⟩ := exists_gathered (isCut_pieces (unwrap (trim text)))
  rw [read_eq]
  constructor
  case tight =>
    intro a ha
    obtain ⟨r, -, rfl⟩ := List.mem_map.1 ha
    rw [settle, String.toList_ofList]
    exact tight_trim r.2
  case sound =>
    intro a ha
    obtain ⟨r, hr, rfl⟩ := List.mem_map.1 ha
    rw [settle, String.toList_ofList, String.toList_ofList]
    exact (hg.sound r hr).trim
  case closed =>
    intro a ha
    rw [← List.map_dropLast] at ha
    obtain ⟨r, hr, rfl⟩ := List.mem_map.1 ha
    rw [settle, String.toList_ofList]
    exact closed_trim (hg.closed r hr)

/-! ## Writing and reading back -/

/-- One argument as it is written. -/
def segment (a : CallArg) : List Char := a.name.toList ++ ": ".toList ++ a.value.toList

theorem write_eq (args : List CallArg) : write args = join ", ".toList (args.map segment) := rfl

theorem write_cons_cons (a b : CallArg) (as : List CallArg) :
    write (a :: b :: as) = segment a ++ (", ".toList ++ write (b :: as)) :=
  join_cons_cons _ _ _ _

/-- The last argument, with the blank behind its colon trimmed if there is no value. -/
theorem trimEnd_segment {a : CallArg} (h : Tight a.value.toList) :
    ∃ v, trimEnd (segment a) = a.name.toList ++ ':' :: v ∧ trim v = a.value.toList ∧
      (pieces v).tail = (pieces a.value.toList).tail := by
  rcases hv : a.value.toList with _ | ⟨c, s⟩
  · refine ⟨[], ?_, rfl, rfl⟩
    have hs : segment a = (a.name.toList ++ [':']) ++ [' '] := by
      rw [segment, hv, List.append_nil, List.append_assoc]
      rfl
    rw [hs, trimEnd_append_of_blanks _ blanks_space, trimEnd_concat_of_not _ (by decide)]
  · rw [hv] at h
    refine ⟨[' '] ++ (c :: s), ?_, ?_, ?_⟩
    · rw [segment, hv, trimEnd_eq_self, List.append_assoc]
      · rfl
      · rw [List.getLast?_append_of_ne_nil _ (List.cons_ne_nil c s)]
        exact h.last
    · have := trim_padded blanks_space h blanks_nil
      rwa [List.append_nil] at this
    · exact tail_pieces_blanks_append blanks_space _

/-- A written list opens with a name. -/
theorem exists_cons_write {a : CallArg} {as : List CallArg} (h : WellFormed (a :: as)) :
    ∃ c s, write (a :: as) = c :: s ∧ isName c = true := by
  have hname := (h.sound a List.mem_cons_self).name
  obtain ⟨c, s, hn⟩ := List.exists_cons_of_ne_nil hname.ne_nil
  have hc : isName c = true := hname.all c (hn ▸ List.mem_cons_self)
  rw [write_eq, List.map_cons, join_cons_eq_flatMap, segment, hn]
  exact ⟨c, _, rfl, hc⟩

theorem trimEnd_write_ne_nil {a : CallArg} {as : List CallArg} (h : WellFormed (a :: as)) :
    trimEnd (write (a :: as)) ≠ [] := by
  obtain ⟨c, s, hw, hc⟩ := exists_cons_write h
  intro he
  have hb := List.rdropWhile_eq_nil_iff.1 he c (hw ▸ List.mem_cons_self)
  rw [isBlank_of_isName hc] at hb
  cases hb

theorem WellFormed.tail {a : CallArg} {as : List CallArg} (h : WellFormed (a :: as)) :
    WellFormed as where
  tight b hb := h.tight b (List.mem_cons_of_mem a hb)
  sound b hb := h.sound b (List.mem_cons_of_mem a hb)
  closed b hb := by
    refine h.closed b ?_
    cases as with
    | nil => exact absurd hb List.not_mem_nil
    | cons c as =>
      rw [List.dropLast_cons_of_ne_nil (List.cons_ne_nil c as)]
      exact List.mem_cons_of_mem a hb

/-- The arguments of a written list are gathered one by one. -/
theorem gather_write {a : CallArg} {as : List CallArg} (h : WellFormed (a :: as)) {b : List Char}
    (hb : Blanks b) : ∃ rs, gather (pieces (b ++ trimEnd (write (a :: as)))) = ([], rs) ∧
      rs.map settle = a :: as := by
  induction as generalizing a b with
  | nil =>
    obtain ⟨v, htext, hv, hp⟩ := trimEnd_segment (h.tight a List.mem_cons_self)
    have hs := h.sound a List.mem_cons_self
    have hsound : Sound a.name.toList v := ⟨hs.name, hp ▸ hs.unnamed⟩
    have hg := gather_argument hb hsound [] rfl
    rw [List.append_nil, ← htext] at hg
    refine ⟨[(a.name.toList, v)], hg, ?_⟩
    rw [List.map_singleton, settle, hv, String.ofList_toList, String.ofList_toList]
  | cons a' as ih =>
    obtain ⟨rs, hrs, hmap⟩ := ih h.tail blanks_space
    have hclosed : Closed a.value.toList := h.closed a (by
      rw [List.dropLast_cons_of_ne_nil (List.cons_ne_nil a' as)]
      exact List.mem_cons_self)
    have hs := h.sound a List.mem_cons_self
    have hsound : Sound a.name.toList ([' '] ++ a.value.toList) := by
      refine ⟨hs.name, ?_⟩
      rw [tail_pieces_blanks_append blanks_space]
      exact hs.unnamed
    have htext : b ++ trimEnd (write (a :: a' :: as)) =
        (b ++ (a.name.toList ++ ':' :: ([' '] ++ a.value.toList))) ++
          ',' :: ([' '] ++ trimEnd (write (a' :: as))) := by
      rw [write_cons_cons, ← List.append_assoc, trimEnd_append (trimEnd_write_ne_nil h.tail),
        segment]
      simp
    have hopen : Closed (b ++ (a.name.toList ++ ':' :: ([' '] ++ a.value.toList))) := by
      rw [closed_argument hb hs.name,
        closed_plain_append fun c hc => isPlain_of_isBlank (blanks_space c hc)]
      exact hclosed
    refine ⟨(a.name.toList, [' '] ++ a.value.toList) :: rs, ?_, ?_⟩
    · rw [htext, pieces_append_comma hopen, gather_argument hb hsound _ (by rw [hrs]), hrs]
    · have htrim := trim_padded blanks_space (h.tight a List.mem_cons_self) blanks_nil
      rw [List.append_nil] at htrim
      rw [List.map_cons, hmap, settle, htrim, String.ofList_toList, String.ofList_toList]

/-- **Writing** a well-formed list loses nothing. -/
theorem read_write {args : List CallArg} (h : WellFormed args) : read (write args) = args := by
  cases args with
  | nil => rfl
  | cons a as =>
    obtain ⟨rs, hg, hmap⟩ := gather_write h blanks_nil
    obtain ⟨c, s, hw, hc⟩ := exists_cons_write h
    have htrim : trim (write (a :: as)) = trimEnd (write (a :: as)) := by
      rw [trim, hw, trimStart_cons_of_not (isBlank_of_isName hc)]
    have hne : c ≠ '{' := fun he => absurd (he ▸ hc) (by decide)
    have hunwrap : unwrap (trimEnd (write (a :: as))) = trimEnd (write (a :: as)) := by
      obtain ⟨d, r, hd⟩ := List.exists_cons_of_ne_nil (trimEnd_write_ne_nil h)
      have hp := prefix_trimEnd (write (a :: as))
      rw [hd, hw] at hp
      have hdc : '{' ≠ d := fun he => hne ((List.cons_prefix_cons.1 hp).1.symm.trans he.symm)
      rw [unwrap, hd, expect, if_neg hdc]
      rfl
    rw [read_eq, htrim, hunwrap, ← List.nil_append (trimEnd _), hg]
    exact hmap

end Blockscript.Arguments
