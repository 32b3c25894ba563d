import Blockscript.Proofs.Script.HeaderLine

/-!
# Parameters read back

The parameters of an action are read back as they were written (`readParameters_written`), if their
types let them: a comma would end a type, and a question mark at its end is read as leave to leave
the parameter out. Parameters that were read have such types (`readable_readParameters`), so that no
others are read back (`readParameters_eq_iff`).
-/

namespace Blockscript

open Text Line

namespace Parameter

/-- Whether the type of a parameter can be read back from the text between the parentheses. -/
structure Readable (p : Parameter) : Prop where
  comma : ',' ∉ Clean.line "Any" p.type
  mark : p.optional = false → '?' ∉ (Clean.line "Any" p.type).getLast?

/-- The parameter that a document has for a header's. -/
def written (p : Parameter) : Parameter where
  name := String.ofList (Clean.name "param" p.name)
  type := String.ofList (Clean.line "Any" p.type)
  optional := p.optional

theorem type_ne_nil (p : Parameter) : Clean.line "Any" p.type ≠ [] :=
  Clean.line_ne_nil (by decide) p.type

theorem parameterText_written (p : Parameter) :
    Script.parameterText p.written = Script.parameterText p := by
  rw [Script.parameterText, Script.parameterText, written, Clean.name_name (by decide),
    Clean.line_line (by decide) (by decide)]

theorem parametersText_map_written (ps : List Parameter) :
    Script.parametersText (ps.map written) = Script.parametersText ps := by
  have hmap : (ps.map written).map Script.parameterText = ps.map Script.parameterText := by
    rw [List.map_map]
    exact List.map_congr_left fun p _ => parameterText_written p
  rw [Script.parametersText, Script.parametersText, hmap]
  cases ps <;> rfl

/-- Cleaning a type leaves its commas and the mark at its end. -/
theorem readable_iff {p : Parameter} :
    p.Readable ↔ ',' ∉ p.type.toList ∧
      (p.optional = false → (oneLine p.type.toList).getLast? ≠ some '?') := by
  have hcomma : ',' ∈ Clean.line "Any" p.type ↔ ',' ∈ p.type.toList :=
    Clean.mem_line_iff (by decide) (by decide)
  have hmark : '?' ∈ (Clean.line "Any" p.type).getLast? ↔
      (oneLine p.type.toList).getLast? = some '?' := by
    by_cases h : oneLine p.type.toList = []
    · rw [Clean.line, h]
      decide
    · rw [Clean.line, Clean.orElse_of_ne_nil h, Option.mem_def]
  constructor
  · rintro ⟨hc, hm⟩
    exact ⟨fun h => hc (hcomma.2 h), fun hopt h => hm hopt (hmark.2 h)⟩
  · rintro ⟨hc, hm⟩
    exact ⟨fun h => hc (hcomma.1 h), fun hopt h => hm hopt (hmark.1 h)⟩

theorem readable_written {p : Parameter} : p.written.Readable ↔ p.Readable := by
  have hline : Clean.line "Any" p.written.type = Clean.line "Any" p.type :=
    Clean.line_line (by decide) (by decide) p.type
  constructor
  · rintro ⟨hc, hm⟩
    rw [hline] at hc hm
    exact ⟨hc, hm⟩
  · rintro ⟨hc, hm⟩
    refine ⟨?_, ?_⟩ <;> rwa [hline]

theorem comma_not_mem_parameterText {p : Parameter} (hp : p.Readable) :
    ',' ∉ Script.parameterText p := by
  simp only [Script.parameterText, List.mem_append, not_or]
  refine ⟨⟨⟨(isWordOf_parameter p).not_mem (by decide), by decide⟩, hp.comma⟩, ?_⟩
  cases p.optional <;> decide

/-! ## Lists of parameters -/

/-- A blank in front of a parameter is no part of its name. -/
theorem readParameter_cons_space (s : List Char) : readParameter (' ' :: s) = readParameter s := by
  have hcut : cut ':' (' ' :: s) = (cut ':' s).map fun r => (' ' :: r.1, r.2) := by
    have htake : (' ' :: s).takeWhile (· ≠ ':') = ' ' :: s.takeWhile (· ≠ ':') :=
      List.takeWhile_cons_of_pos (by decide)
    have hdrop : (' ' :: s).dropWhile (· ≠ ':') = s.dropWhile (· ≠ ':') :=
      List.dropWhile_cons_of_pos (by decide)
    rw [cut, cut, htake, hdrop]
    split <;> rfl
  unfold readParameter
  rw [hcut]
  cases cut ':' s with
  | none => rfl
  | some r => rfl

theorem readParameters_cons_space (s : List Char) :
    readParameters (' ' :: s) = readParameters s := by
  obtain ⟨q, qs, hs⟩ := List.exists_cons_of_ne_nil (split_ne_nil ',' s)
  have hspace : split ',' (' ' :: s) = (' ' :: q) :: qs := by
    rw [split, hs]
    exact if_neg (by decide)
  rw [readParameters, readParameters, hspace, hs, List.filterMap_cons, List.filterMap_cons,
    readParameter_cons_space]

theorem readParameters_append (s r : List Char) :
    readParameters (s ++ ',' :: r) = readParameters s ++ readParameters r := by
  rw [readParameters, split_append, List.filterMap_append]
  rfl

/-- Each parameter is read from its own text. -/
theorem readParameters_body (ps : List Parameter) : readParameters (parametersBody ps) =
    ps.flatMap fun p => readParameters (Script.parameterText p) := by
  induction ps with
  | nil => decide
  | cons p ps ih =>
    rw [List.flatMap_cons, ← ih]
    cases ps with
    | nil =>
      have hnil : readParameters (parametersBody []) = [] := by decide
      rw [hnil, List.append_nil]
      rfl
    | cons q qs =>
      have hform : parametersBody (p :: q :: qs) =
          Script.parameterText p ++ ',' :: (' ' :: parametersBody (q :: qs)) := by
        simp [parametersBody, join_cons_cons]
      rw [hform, readParameters_append, readParameters_cons_space]

/-! ## Reading what was written -/

/-- What stands after the colon of a parameter, with its mark. -/
theorem trim_type (p : Parameter) :
    trim (' ' :: (Clean.line "Any" p.type ++ if p.optional then ['?'] else [])) =
      Clean.line "Any" p.type ++ if p.optional then ['?'] else [] := by
  have htight : Tight (Clean.line "Any" p.type ++ if p.optional then ['?'] else []) := by
    refine ⟨isBlank_head?_append (inline_type p).toTight p.type_ne_nil _, ?_⟩
    cases p.optional with
    | true =>
      rw [if_pos rfl, List.getLast?_concat]
      decide
    | false =>
      rw [if_neg Bool.false_ne_true, List.append_nil]
      exact (inline_type p).last
  have h := trim_padded blanks_space htight blanks_nil
  rwa [List.append_nil] at h

theorem readParameter_written {p : Parameter} (hp : p.Readable) :
    readParameter (Script.parameterText p) = some p.written := by
  have hname := isWordOf_parameter p
  have hform : Script.parameterText p = Clean.name "param" p.name ++
      ':' :: (' ' :: (Clean.line "Any" p.type ++ if p.optional then ['?'] else [])) := by
    simp [Script.parameterText]
  have hcolon : ':' ∉ Clean.name "param" p.name := hname.not_mem (by decide)
  have htrim : trim (Clean.name "param" p.name) = Clean.name "param" p.name :=
    hname.inline_name.toTight.trim_eq
  have hmark := hp.mark
  have htype := p.type_ne_nil
  have htight := (inline_type p).toTight
  have hafter := p.trim_type
  rw [hform, readParameter]
  simp only [Option.bind_eq_bind]
  refine Option.bind_eq_some_iff.2 ⟨_, cut_append hcolon _, ?_⟩
  dsimp only
  rw [htrim, hafter, written]
  generalize Clean.name "param" p.name = name at hname
  generalize Clean.line "Any" p.type = type at hmark htype htight
  rw [if_neg (by simp [hname.ne_nil, htype])]
  cases hopt : p.optional with
  | true =>
    rw [if_pos rfl, beforeFinal_append]
    dsimp only
    rw [htight.trim_eq]
  | false =>
    rw [if_neg Bool.false_ne_true, List.append_nil, beforeFinal_eq_none_iff.2 (hmark hopt)]

theorem readParameters_parameterText {p : Parameter} (hp : p.Readable) :
    readParameters (Script.parameterText p) = [p.written] := by
  rw [readParameters, split_of_not_mem (comma_not_mem_parameterText hp),
    List.filterMap_cons_some (readParameter_written hp)]
  rfl

theorem readParameters_written {ps : List Parameter} (hps : ∀ p ∈ ps, p.Readable) :
    readParameters (parametersBody ps) = ps.map written := by
  rw [readParameters_body, List.map_eq_flatMap]
  exact List.flatMap_congr fun p hp => readParameters_parameterText (hps p hp)

/-! ## Parameters that were read -/

theorem readable_of_tight {type : List Char} (htight : Tight type) (hcomma : ',' ∉ type)
    (name : String) {optional : Bool} (hmark : optional = false → '?' ∉ type.getLast?) :
    Readable ⟨name, String.ofList type, optional⟩ := by
  rw [readable_iff, String.toList_ofList, htight.oneLine_eq, List.getLast?_map]
  refine ⟨hcomma, fun hopt h => ?_⟩
  obtain ⟨d, hd, he⟩ := Option.map_eq_some_iff.1 h
  exact hmark hopt ((flat_eq_iff (by decide)).1 he ▸ hd)

theorem readable_readParameter {s : List Char} (hs : ',' ∉ s) {p : Parameter}
    (hp : readParameter s = some p) : p.Readable := by
  unfold readParameter at hp
  simp only [Option.bind_eq_bind] at hp
  obtain ⟨⟨name, type⟩, hcut, hp⟩ := Option.bind_eq_some_iff.1 hp
  have htype : ',' ∉ trim type := fun h => hs ((suffix_of_cut hcut).subset (trim_subset _ h))
  dsimp only at hp
  split at hp
  · cases hp
  · split at hp
    · rename_i base hbase
      cases hp
      refine readable_of_tight (tight_trim base) (fun h => htype ?_) _ fun h => nomatch h
      rw [beforeFinal_eq_some hbase]
      exact List.mem_append_left _ (trim_subset _ h)
    · rename_i hbase
      cases hp
      exact readable_of_tight (tight_trim type) htype _ fun _ => beforeFinal_eq_none_iff.1 hbase

/-- Every parameter that was read can be read back. -/
theorem readable_readParameters (s : List Char) : ∀ p ∈ readParameters s, p.Readable := by
  intro p hp
  obtain ⟨piece, hpiece, hread⟩ := List.mem_filterMap.1 hp
  exact readable_readParameter (not_mem_of_mem_split ',' s piece hpiece) hread

/-- Parameters come back as they were written only if they can be read back, because whatever is
read can be. -/
theorem readParameters_eq_iff {ps : List Parameter} :
    readParameters (parametersBody ps) = ps.map written ↔ ∀ p ∈ ps, p.Readable := by
  refine ⟨fun h p hp => ?_, readParameters_written⟩
  have hread : p.written ∈ readParameters (parametersBody ps) := h ▸ List.mem_map_of_mem hp
  exact readable_written.1 (readable_readParameters _ _ hread)

end Parameter

end Blockscript
