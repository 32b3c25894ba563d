import Blockscript.Proofs.Arguments.WellFormed
import Blockscript.Proofs.Text.Cleaned

/-!
# Cleaned argument lists

Cleaning an argument list writes the cleaned arguments out and reads them back, because a value may
turn out to hold arguments of its own. A list that was read is settled: cleaning it argument by
argument gives the same (`args_eq_map`), which touches line breaks and blank values only
(`args_read`). A list that was cleaned is settled but for its empty values (`args_args_iff`), which
cleaning replaces by a placeholder: a value that starts or ends where its text is cut may come out
empty, as in `a: , b: 1`.
-/

namespace Blockscript.Arguments

open Text

/-! ## Line breaks mean no more than spaces -/

theorem Position.next_flat (p : Position) (c : Char) : p.next (flat c) = p.next c := by
  by_cases h : IsBreak c
  · rcases h with rfl | rfl <;> cases p <;> rfl
  · rw [flat_of_not h]

theorem piecesFrom_map_flat (p : Position) (s : List Char) :
    piecesFrom p (s.map flat) = (piecesFrom p s).map (List.map flat) := by
  induction s generalizing p with
  | nil => rfl
  | cons c s ih =>
    have hcomma : flat c = ',' ↔ c = ',' := flat_eq_iff (by decide)
    rw [List.map_cons]
    by_cases h : p = .plain 0 ∧ c = ','
    · obtain ⟨rfl, rfl⟩ := h
      rw [show flat ',' = ',' from rfl, piecesFrom_comma, piecesFrom_comma, List.map_cons]
      exact congrArg _ (ih (.plain 0))
    · obtain ⟨q, qs, hs⟩ := List.exists_cons_of_ne_nil (piecesFrom_ne_nil (p.next c) s)
      have hs' : piecesFrom (p.next (flat c)) (s.map flat) =
          q.map flat :: qs.map (List.map flat) := by
        rw [Position.next_flat, ih, hs]
        rfl
      rw [piecesFrom_cons h hs, piecesFrom_cons (by rwa [hcomma]) hs']
      rfl

theorem after_map_flat (p : Position) (s : List Char) : p.after (s.map flat) = p.after s := by
  induction s generalizing p with
  | nil => rfl
  | cons c s ih => rw [List.map_cons, Position.after_cons, Position.next_flat, ih]; rfl

theorem unnamed_map_flat {p : List Char} (h : named? p = none) : named? (p.map flat) = none := by
  rw [Option.eq_none_iff_forall_ne_some]
  rintro ⟨n, v⟩ hs
  obtain ⟨b, b', hb, hn, hb', he⟩ := named?_eq_some_iff.1 hs
  obtain ⟨b₁, r₁, rfl, rfl, h₁⟩ := List.map_eq_append_iff.1 he
  obtain ⟨n₁, r₂, rfl, rfl, h₂⟩ := List.map_eq_append_iff.1 h₁
  obtain ⟨b₂, r₃, rfl, rfl, h₃⟩ := List.map_eq_append_iff.1 h₂
  obtain ⟨c, v₁, rfl, hc, rfl⟩ := List.map_eq_cons_iff.1 h₃
  rw [(flat_eq_iff (by decide)).1 hc] at h
  have hname : IsWordOf isName n₁ := by
    refine ⟨fun hnil => hn.ne_nil (by rw [hnil]; rfl), fun d hd => ?_⟩
    have := hn.all (flat d) (List.mem_map_of_mem hd)
    rwa [isName_flat] at this
  have hsome : named? (b₁ ++ (n₁ ++ (b₂ ++ ':' :: v₁))) = some (n₁, v₁) :=
    named?_eq_some_iff.2 ⟨b₁, b₂, blanks_of_map_flat hb, hname, blanks_of_map_flat hb', rfl⟩
  rw [hsome] at h
  cases h

/-! ## Characters of values -/

/-- What holds of commas and of all characters of the pieces holds of what is gathered. -/
theorem forall_mem_gather {P : Char → Prop} (hcomma : P ',') {ps : List (List Char)}
    (h : ∀ p ∈ ps, ∀ c ∈ p, P c) :
    (∀ c ∈ (gather ps).1, P c) ∧ ∀ r ∈ (gather ps).2, ∀ c ∈ r.2, P c := by
  induction ps with
  | nil => exact ⟨fun c hc => absurd hc List.not_mem_nil, fun r hr => absurd hr List.not_mem_nil⟩
  | cons p ps ih =>
    obtain ⟨hp, hps⟩ := List.forall_mem_cons.1 h
    obtain ⟨hfront, hargs⟩ := ih hps
    rcases hn : named? p with _ | ⟨n, v⟩
    · rw [gather_cons_unnamed hn]
      refine ⟨fun c hc => ?_, hargs⟩
      rcases List.mem_append.1 hc with hc | hc
      · exact List.forall_mem_cons.2 ⟨hcomma, hp⟩ c hc
      · exact hfront c hc
    · obtain ⟨b, b', -, -, -, rfl⟩ := named?_eq_some_iff.1 hn
      rw [gather_cons_named hn]
      refine ⟨fun c hc => absurd hc List.not_mem_nil, List.forall_mem_cons.2 ⟨?_, hargs⟩⟩
      intro c hc
      rcases List.mem_append.1 hc with hc | hc
      · exact hp c (by simp [hc])
      · exact hfront c hc

theorem unwrap_subset (s : List Char) : unwrap s ⊆ s := by
  unfold unwrap
  split
  · rename_i inner h
    obtain ⟨r, hr, hb⟩ := Option.bind_eq_some_iff.1 h
    rw [eq_append_of_expect hr, beforeFinal_eq_some hb]
    intro c hc
    have := trim_subset inner hc
    simp [this]
  · exact List.Subset.refl s

theorem forall_mem_value_read {P : Char → Prop} (hcomma : P ',') {text : List Char}
    (h : ∀ c ∈ text, P c) : ∀ a ∈ read text, ∀ c ∈ a.value.toList, P c := by
  intro a ha c hc
  rw [read_eq] at ha
  obtain ⟨r, hr, rfl⟩ := List.mem_map.1 ha
  rw [settle, String.toList_ofList] at hc
  refine (forall_mem_gather hcomma fun p hp d hd => ?_).2 r hr c (trim_subset _ hc)
  exact h d (trim_subset text (unwrap_subset _ (mem_of_mem_pieces hp hd)))

/-! ## Cleaning settled lists -/

/-- An argument cleaned by itself. -/
def cleaned (a : CallArg) : CallArg :=
  ⟨String.ofList (Clean.name "arg" a.name), String.ofList (Clean.line "\"\"" a.value)⟩

@[simp] theorem toList_name_cleaned (a : CallArg) :
    (cleaned a).name.toList = Clean.name "arg" a.name := String.toList_ofList

@[simp] theorem toList_value_cleaned (a : CallArg) :
    (cleaned a).value.toList = Clean.line "\"\"" a.value := String.toList_ofList

theorem isWordOf_arg : IsWordOf isName "arg".toList := by decide

theorem inline_quotes : Inline "\"\"".toList := by decide

theorem wellFormed_args (as : List CallArg) : WellFormed (Clean.args as) := wellFormed_read _

theorem Sound.line {n v : List Char} (h : Sound n v) (ht : Tight v) :
    Sound n (Clean.line "\"\"" (String.ofList v)) := by
  refine ⟨h.name, ?_⟩
  rw [Clean.line, String.toList_ofList, ht.oneLine_eq, Clean.orElse]
  split
  · exact fun p hp => absurd hp List.not_mem_nil
  · rw [pieces, piecesFrom_map_flat, ← List.map_tail]
    intro p hp
    obtain ⟨q, hq, rfl⟩ := List.mem_map.1 hp
    exact unnamed_map_flat (h.unnamed q hq)

theorem closed_line {v : List Char} (h : Closed v) (ht : Tight v) :
    Closed (Clean.line "\"\"" (String.ofList v)) := by
  rw [Clean.line, String.toList_ofList, ht.oneLine_eq, Clean.orElse]
  split
  · rfl
  · rwa [Closed, after_map_flat]

theorem WellFormed.map_cleaned {as : List CallArg} (h : WellFormed as) :
    WellFormed (as.map cleaned) := by
  constructor
  case tight =>
    intro x hx
    obtain ⟨a, -, rfl⟩ := List.mem_map.1 hx
    rw [toList_value_cleaned]
    exact (Clean.inline_line inline_quotes a.value).toTight
  case sound =>
    intro x hx
    obtain ⟨a, ha, rfl⟩ := List.mem_map.1 hx
    have hs := (h.sound a ha).line (h.tight a ha)
    rw [String.ofList_toList, ← Clean.name_eq_self hs.name "arg"] at hs
    rwa [toList_name_cleaned, toList_value_cleaned]
  case closed =>
    intro x hx
    rw [← List.map_dropLast] at hx
    obtain ⟨a, ha, rfl⟩ := List.mem_map.1 hx
    have hc := closed_line (h.closed a ha) (h.tight a (List.dropLast_subset as ha))
    rw [String.ofList_toList] at hc
    rwa [toList_value_cleaned]

/-- **Settled lists.** A list that could have been read is cleaned argument by argument. -/
theorem args_eq_map {as : List CallArg} (h : WellFormed as) : Clean.args as = as.map cleaned :=
  read_write h.map_cleaned

/-- An argument as a document spells it: the value with its line breaks as spaces, and a pair of
quotes in place of a blank one. -/
def spelled (a : CallArg) : CallArg :=
  ⟨a.name, if trim a.value.toList = [] then "\"\"" else String.ofList (a.value.toList.map flat)⟩

theorem cleaned_eq_spelled {a : CallArg} (hn : IsWordOf isName a.name.toList)
    (hv : Tight a.value.toList) : cleaned a = spelled a := by
  unfold cleaned spelled Clean.line Clean.orElse
  rw [Clean.name_eq_self hn, String.ofList_toList, hv.oneLine_eq, hv.trim_eq]
  by_cases h : a.value.toList = []
  · rw [if_pos h, h]
    rfl
  · have hflat : a.value.toList.map flat ≠ [] := fun he => h (List.map_eq_nil_iff.1 he)
    rw [if_neg h, if_neg hflat]

/-- **A list that was read** keeps its names, its number of arguments and their order when it is
cleaned, and its values but for line breaks and blanks. -/
theorem args_read (text : List Char) : Clean.args (read text) = (read text).map spelled := by
  have h := wellFormed_read text
  rw [args_eq_map h]
  refine List.map_congr_left ?_
  intro a ha
  exact cleaned_eq_spelled (h.sound a ha).name (h.tight a ha)

theorem value_ne_of_mem_map_cleaned {as : List CallArg} :
    ∀ a ∈ as.map cleaned, a.value ≠ "" := by
  intro x hx
  obtain ⟨a, -, rfl⟩ := List.mem_map.1 hx
  intro he
  have hv := congrArg String.toList he
  rw [toList_value_cleaned] at hv
  exact Clean.line_ne_nil (by decide) a.value hv

/-- Arguments that are on one line each are written on one line. -/
theorem not_isBreak_of_mem_write {as : List CallArg}
    (hn : ∀ a ∈ as, IsWordOf isName a.name.toList) (hv : ∀ a ∈ as, Inline a.value.toList) :
    ∀ c ∈ write as, ¬IsBreak c := by
  intro c hc
  rw [write_eq] at hc
  rcases mem_join hc with hc | ⟨l, hl, hc⟩
  · exact (by decide : ∀ c ∈ ", ".toList, ¬IsBreak c) c hc
  · obtain ⟨a, ha, rfl⟩ := List.mem_map.1 hl
    rw [segment, List.mem_append, List.mem_append] at hc
    rcases hc with (hc | hc) | hc
    · exact (hn a ha).inline_name.no_break c hc
    · exact (by decide : ∀ c ∈ ": ".toList, ¬IsBreak c) c hc
    · exact (hv a ha).no_break c hc

theorem isWordOf_name_cleaned (a : CallArg) : IsWordOf isName (cleaned a).name.toList := by
  rw [toList_name_cleaned]
  exact Clean.isWordOf_name isWordOf_arg a.name

theorem inline_value_cleaned (a : CallArg) : Inline (cleaned a).value.toList := by
  rw [toList_value_cleaned]
  exact Clean.inline_line inline_quotes a.value

theorem inline_value {as : List CallArg} : ∀ a ∈ Clean.args as, Inline a.value.toList := by
  intro a ha
  have hwrite : ∀ c ∈ write (as.map cleaned), ¬IsBreak c :=
    not_isBreak_of_mem_write (List.forall_mem_map.2 fun a _ => isWordOf_name_cleaned a)
      (List.forall_mem_map.2 fun a _ => inline_value_cleaned a)
  refine ⟨(wellFormed_args as).tight a ha, ?_⟩
  exact forall_mem_value_read (P := (¬IsBreak ·)) (by decide) hwrite a ha

theorem cleaned_eq_self_iff {a : CallArg} (hn : IsWordOf isName a.name.toList)
    (hv : Inline a.value.toList) : cleaned a = a ↔ a.value ≠ "" := by
  constructor
  · intro h
    rw [← h]
    exact value_ne_of_mem_map_cleaned _ (List.mem_map_of_mem (List.mem_singleton_self a))
  · intro h
    have hne : a.value.toList ≠ [] := fun he => h (String.toList_eq_nil_iff.1 he)
    rw [cleaned, Clean.name_eq_self hn, Clean.line_eq_self hv hne, String.ofList_toList,
      String.ofList_toList]

/-- **A cleaned list is settled** exactly if none of its values came out empty. -/
theorem args_args_iff (as : List CallArg) :
    Clean.args (Clean.args as) = Clean.args as ↔ ∀ a ∈ Clean.args as, a.value ≠ "" := by
  have hw := wellFormed_args as
  rw [args_eq_map hw]
  conv_lhs => rhs; rw [← List.map_id (Clean.args as)]
  rw [List.map_inj_left]
  exact forall₂_congr fun a ha => cleaned_eq_self_iff (hw.sound a ha).name (inline_value a ha)

/-- A list that was read is settled by one cleaning. -/
theorem value_ne_of_wellFormed {as : List CallArg} (h : WellFormed as) :
    ∀ a ∈ Clean.args as, a.value ≠ "" := by
  rw [args_eq_map h]
  exact value_ne_of_mem_map_cleaned

end Blockscript.Arguments
