import Blockscript.Proofs.Script.StatementLine

/-!
# Header lines

The lines of a header stand on lines of their own and are read as the header they were written
from, cleaned: `writes_ruleLine`, `writes_triggerLine`, `writes_actionLine` and
`writes_descriptionLine`. The name and the priority of a rule are found from the end of the line,
whatever the name holds.
-/

namespace Blockscript

open Text

/-- The trigger that a document has for a header's. -/
def Trigger.written : Option Trigger → Trigger
  | none => { event := "UPDATE", entity := "Entity" }
  | some t =>
    { event := String.ofList (Clean.name "UPDATE" t.event)
      entity := String.ofList (Clean.name "Entity" t.entity)
      property :=
        if Clean.name "UPDATE" t.event = "UPDATE".toList ∧ Clean.name "" (t.property.getD "") ≠ []
        then some (String.ofList (Clean.name "" (t.property.getD ""))) else none }

namespace Line

/-! ## Rules -/

theorem isName_of_isDigit {c : Char} (h : c.isDigit = true) : isName c = true := by
  rw [isName, Char.isAlphanum, h, Bool.or_true, Bool.true_or]

theorem isDecimal_of_isDigit {c : Char} (h : c.isDigit = true) : isDecimal c = true := by
  rw [isDecimal, h, Bool.true_or]

theorem not_isBreak_intDigits (i : ℤ) : ∀ c ∈ intDigits i, ¬IsBreak c := by
  have hd : ∀ c ∈ natDigits i.natAbs, ¬IsBreak c := by
    intro c hc hb
    have hn := isBlank_of_isName (isName_of_isDigit (isDigit_of_mem_natDigits hc))
    rw [isBlank_of_isBreak hb] at hn
    cases hn
  unfold intDigits
  split
  · exact List.forall_mem_cons.2 ⟨by decide, hd⟩
  · exact hd

theorem natDigits_ne_nil (n : ℕ) : natDigits n ≠ [] := Nat.toDigits_ne_nil

theorem readName_padded {s : List Char} (hs : Inline s) (hne : s ≠ []) :
    readName ([' '] ++ s ++ [' ']) = some s := by
  have hblank : (startsBlank ([' '] ++ s ++ [' ']) && startsBlank ([' '] ++ s ++ [' ']).reverse) =
      true := by
    simp [startsBlank]
    decide
  rw [readName, trim_padded blanks_space hs.toTight blanks_space]
  cases s with
  | nil => exact absurd rfl hne
  | cons c s => exact if_pos hblank

/-- What stands in front of the number of a rule, read backwards. -/
def beforeNumber (n : List Char) : List Char := " PRIORITY ".toList.reverse ++ (n.reverse ++ [' '])

theorem readName_beforeNumber {n : List Char} (hn : Inline n) (hne : n ≠ [])
    (f : List Char → Option Line) :
    (expectBlank (beforeNumber n)).bind (fun s =>
        (expect "PRIORITY".toList.reverse s).bind fun s => (readName s.reverse).bind f) = f n := by
  have hform : beforeNumber n =
      ' ' :: ("PRIORITY".toList.reverse ++ ([' '] ++ (n.reverse ++ [' ']))) := by
    simp [beforeNumber]
  have hrev : ([' '] ++ (n.reverse ++ [' '])).reverse = [' '] ++ n ++ [' '] := by simp
  rw [hform, expectBlank_space (by simp; decide), Option.bind_some, expect_append,
    Option.bind_some, hrev, readName_padded hn hne, Option.bind_some]

theorem readRule_written {n : List Char} (hn : Inline n) (hne : n ≠ []) (p : Int64) :
    readRule ("RULE ".toList ++ n ++ " PRIORITY ".toList ++ intDigits p.toInt ++ [' ', '{']) =
      some (.ruleHeader (String.ofList n) (some p)) := by
  have hform : "RULE ".toList ++ n ++ " PRIORITY ".toList ++ intDigits p.toInt ++ [' ', '{'] =
      "RULE".toList ++ ([' '] ++ n ++ " PRIORITY ".toList ++ intDigits p.toInt ++ [' ', '{']) := by
    simp
  have hrev : ([' '] ++ n ++ " PRIORITY ".toList ++ intDigits p.toInt ++ [' ', '{']).reverse =
      ['{'] ++ ([' '] ++ ((intDigits p.toInt).reverse ++ beforeNumber n)) := by
    simp [beforeNumber]
  have hnumber : (intValue (intDigits p.toInt)).bind toWord = some p := by
    rw [intValue_intDigits, Option.bind_some, toWord_toInt]
  have hdigits : ∀ c ∈ (natDigits p.toInt.natAbs).reverse, isDecimal c = true := fun c hc =>
    isDecimal_of_isDigit (isDigit_of_mem_natDigits (List.mem_reverse.1 hc))
  have hdne : (natDigits p.toInt.natAbs).reverse ≠ [] :=
    fun h => natDigits_ne_nil _ (List.reverse_eq_nil_iff.1 h)
  have htight : Tight (natDigits p.toInt.natAbs).reverse := by
    refine IsWordOf.inline_name ⟨hdne, fun c hc => ?_⟩ |>.toTight
    exact isName_of_isDigit (isDigit_of_mem_natDigits (List.mem_reverse.1 hc))
  rw [hform, readRule]
  simp only [Option.bind_eq_bind]
  refine Option.bind_eq_some_iff.2 ⟨_, expect_append _ _, ?_⟩
  rw [hrev]
  refine Option.bind_eq_some_iff.2 ⟨_, expect_append _ _, ?_⟩
  rw [trimStart_append_of_blanks blanks_space]
  unfold intDigits at hnumber ⊢
  split
  · rename_i hneg
    rw [if_pos hneg] at hnumber
    rw [List.reverse_cons, List.append_assoc,
      trimStart_eq_self (isBlank_head?_append htight hdne _)]
    refine Option.bind_eq_some_iff.2 ⟨_, run_append hdigits (by simp; decide) hdne, ?_⟩
    dsimp only
    rw [expect_append, List.reverse_reverse, readName_beforeNumber hn hne, hnumber]
  · rename_i hneg
    have hminus : expect ['-'] (beforeNumber n) = none := rfl
    rw [if_neg hneg] at hnumber
    rw [trimStart_eq_self (isBlank_head?_append htight hdne _)]
    refine Option.bind_eq_some_iff.2
      ⟨_, run_append hdigits (by simp [beforeNumber]; decide) hdne, ?_⟩
    dsimp only
    rw [hminus, List.reverse_reverse, readName_beforeNumber hn hne, hnumber]

/-! ## Triggers -/

theorem readOn_written (event entity property : List Char) (hv : IsWordOf isName event)
    (he : IsWordOf isName entity) (hp : ∀ c ∈ property, isName c = true) :
    readOn ("ON ".toList ++ (event ++ ['('] ++ entity ++
        (if property = [] then [] else '.' :: property) ++ [')'])) =
      some (.triggerHeader
        { event := String.ofList event
          entity := String.ofList entity
          property := if property = [] then none else some (String.ofList property) }) := by
  have hform : "ON ".toList ++ (event ++ ['('] ++ entity ++
      (if property = [] then [] else '.' :: property) ++ [')']) =
      "ON".toList ++ (' ' :: (event ++ (['('] ++ (entity ++
        ((if property = [] then [] else '.' :: property) ++ [')']))))) := by simp
  have hword : ∀ c ∈ event, isWord c = true := fun c hc => isWord_of_isName (hv.all c hc)
  rw [hform, readOn]
  simp only [Option.bind_eq_bind]
  refine Option.bind_eq_some_iff.2 ⟨_, expect_append _ _, ?_⟩
  refine Option.bind_eq_some_iff.2
    ⟨_, expectBlank_space (isBlank_head?_append hv.inline_name.toTight hv.ne_nil _), ?_⟩
  refine Option.bind_eq_some_iff.2 ⟨_, run_append hword (by simp; decide) hv.ne_nil, ?_⟩
  dsimp only
  rw [trimStart_eq_self (by simp; decide)]
  refine Option.bind_eq_some_iff.2 ⟨_, expect_append _ _, ?_⟩
  rw [trimStart_eq_self (isBlank_head?_append he.inline_name.toTight he.ne_nil _)]
  have hentity : ∀ c ∈ entity, (!isBlank c && c != '.' && c != ')') = true := by
    intro c hc
    rw [he.not_blank_ne (d := '.') (by decide) c hc, Bool.true_and, bne_iff_ne]
    exact ne_of_mem_of_not_mem hc (he.not_mem (by decide))
  have hproperty : ∀ c ∈ property, (!isBlank c && c != ')') = true := by
    intro c hc
    rw [isBlank_of_isName (hp c hc), Bool.not_false, Bool.true_and, bne_iff_ne]
    rintro rfl
    exact absurd (hp _ hc) (by decide)
  by_cases h : property = []
  · rw [if_pos h, if_pos h, List.nil_append, takeWhile_append_stop hentity (by simp),
      dropWhile_append_stop hentity (by simp)]
    rfl
  · rw [if_neg h, if_neg h, takeWhile_append_stop hentity (by simp),
      dropWhile_append_stop hentity (by simp), List.cons_append]
    have hdot : expect ['.'] ('.' :: (property ++ [')'])) = some (property ++ [')']) := rfl
    have htake := takeWhile_append_stop (r := [')']) hproperty (by simp)
    have hdrop := dropWhile_append_stop (r := [')']) hproperty (by simp)
    rw [hdot]
    simp only [htake, hdrop, if_neg h]
    rfl

theorem triggerText_some (t : Trigger) : Script.triggerText (some t) =
    Clean.name "UPDATE" t.event ++ ['('] ++ Clean.name "Entity" t.entity ++
      (if Clean.name "UPDATE" t.event = "UPDATE".toList ∧ Clean.name "" (t.property.getD "") ≠ []
        then '.' :: Clean.name "" (t.property.getD "") else []) ++ [')'] := rfl

theorem isWordOf_event (event : String) : IsWordOf isName (Clean.name "UPDATE" event) :=
  Clean.isWordOf_name (by decide) event

theorem isName_of_mem_property (text : String) : ∀ c ∈ Clean.name "" text, isName c = true :=
  Clean.orElse_induction (P := fun s => ∀ c ∈ s, isName c = true)
    (fun _ hc => absurd hc List.not_mem_nil) fun _ hc => (List.mem_filter.1 hc).2

theorem readOn_triggerText (t : Option Trigger) :
    readOn ("ON ".toList ++ Script.triggerText t) = some (.triggerHeader (Trigger.written t)) := by
  cases t with
  | none =>
    exact readOn_written "UPDATE".toList "Entity".toList [] (by decide)
      (by decide) (by decide)
  | some t =>
    have hv := isWordOf_event t.event
    have he := isWordOf_entity t.entity
    have hp := isName_of_mem_property (t.property.getD "")
    rw [triggerText_some, Trigger.written]
    generalize Clean.name "UPDATE" t.event = event at hv
    generalize Clean.name "Entity" t.entity = entity at he
    generalize Clean.name "" (t.property.getD "") = property at hp
    by_cases h : event = "UPDATE".toList ∧ property ≠ []
    · have hread := readOn_written event entity property hv he hp
      rw [if_neg h.2, if_neg h.2] at hread
      rw [if_pos h, if_pos h]
      exact hread
    · have hread := readOn_written event entity [] hv he (fun c hc => absurd hc List.not_mem_nil)
      rw [if_pos rfl, if_pos rfl] at hread
      rw [if_neg h, if_neg h]
      exact hread

/-! ## Actions -/

theorem paren_not_mem_actionName (name : String) {c : Char} (hc : c = '(' ∨ c = ')') :
    c ∉ Script.actionName name := by
  have hblank : isBlank c = false := by rcases hc with rfl | rfl <;> decide
  have hplaceholder : c ∉ "Untitled".toList := by rcases hc with rfl | rfl <;> decide
  rw [Script.actionName, Clean.mem_line_iff hblank hplaceholder, String.toList_ofList]
  intro h
  have hkept := of_decide_eq_true (List.mem_filter.1 h).2
  exact hc.elim hkept.1 hkept.2

theorem inline_actionName (name : String) : Inline (Script.actionName name) :=
  Clean.inline_line (by decide) _

theorem actionName_ne_nil (name : String) : Script.actionName name ≠ [] :=
  Clean.line_ne_nil (by decide) _

theorem readActionName_eq {s n : List Char} (h : trimEnd s = n) (hne : n ≠ []) :
    readActionName s = some n := by
  rw [readActionName, h]
  cases n with
  | nil => exact absurd rfl hne
  | cons c n => rfl

/-- The parameters as they stand between the parentheses. -/
def parametersBody (ps : List Parameter) : List Char :=
  join ", ".toList (ps.map Script.parameterText)

theorem readAction_written {e : List Char} (he : IsWordOf isName e) (name : String)
    (ps : List Parameter) :
    readAction ("ACTION ".toList ++ e ++ ['.'] ++ Script.actionName name ++
        Script.parametersText ps ++ [' ', '{']) =
      some (.actionHeader (String.ofList e) (String.ofList (Script.actionName name))
        (readParameters (parametersBody ps))) := by
  have hform : "ACTION ".toList ++ e ++ ['.'] ++ Script.actionName name ++
      Script.parametersText ps ++ [' ', '{'] =
      "ACTION".toList ++ (' ' :: (e ++ (['.'] ++ (Script.actionName name ++
        Script.parametersText ps ++ [' '] ++ ['{'])))) := by simp
  have hn := inline_actionName name
  have hne := actionName_ne_nil name
  have hopen := paren_not_mem_actionName name (.inl rfl)
  rw [hform, readAction]
  simp only [Option.bind_eq_bind]
  generalize Script.actionName name = n at hn hne hopen
  refine Option.bind_eq_some_iff.2 ⟨_, expect_append _ _, ?_⟩
  refine Option.bind_eq_some_iff.2
    ⟨_, expectBlank_space (isBlank_head?_append he.inline_name.toTight he.ne_nil _), ?_⟩
  refine Option.bind_eq_some_iff.2
    ⟨_, run_append (he.not_blank_ne (by decide)) (by simp) he.ne_nil, ?_⟩
  refine Option.bind_eq_some_iff.2 ⟨_, expect_append _ _, ?_⟩
  refine Option.bind_eq_some_iff.2 ⟨_, beforeFinal_append _ _, ?_⟩
  by_cases hps : ps = []
  · have hcut : cut '(' (n ++ [' ']) = none := cut_eq_none (by simp [hopen])
    have htrim : trimEnd (n ++ [' ']) = n := by
      rw [trimEnd_append_of_blanks _ blanks_space, trimEnd_eq_self hn.last]
    have hread : readActionName (n ++ [' ']) = some n := readActionName_eq htrim hne
    rw [hps, Script.parametersText, if_pos rfl, List.append_nil, hcut]
    exact Option.bind_eq_some_iff.2 ⟨_, hread, rfl⟩
  · have hbody : n ++ Script.parametersText ps ++ [' '] =
        n ++ '(' :: (parametersBody ps ++ [')'] ++ [' ']) := by
      simp [Script.parametersText, hps, parametersBody]
    rw [hbody, cut_append hopen]
    refine Option.bind_eq_some_iff.2 ⟨_, readActionName_eq (trimEnd_eq_self hn.last) hne, ?_⟩
    rw [trimEnd_append_of_blanks _ blanks_space, trimEnd_concat_of_not _ (by decide)]
    exact Option.bind_eq_some_iff.2 ⟨_, beforeFinal_append _ _, rfl⟩

theorem readDescription_written (s : List Char) :
    readDescription ("DESCRIPTION: \"".toList ++ escape s ++ ['"']) =
      some (.descriptionHeader (String.ofList s)) := by
  have hform : "DESCRIPTION: \"".toList ++ escape s ++ ['"'] =
      "DESCRIPTION".toList ++ (": \"".toList ++ (escape s ++ ['"'])) := by simp
  rw [hform, readDescription]
  simp only [Option.bind_eq_bind]
  refine Option.bind_eq_some_iff.2 ⟨_, expectQuoted_written _ _, ?_⟩
  refine Option.bind_eq_some_iff.2 ⟨_, beforeFinal_append _ _, ?_⟩
  rw [unescape_escape]

/-! ## What the lines say -/

theorem writes_ruleLine (name : String) (p : Int64) :
    Writes ("RULE ".toList ++ Clean.line "Untitled" name ++ " PRIORITY ".toList ++
        intDigits p.toInt ++ [' ', '{'])
      (.ruleHeader (String.ofList (Clean.line "Untitled" name)) (some p)) := by
  have hn : Inline (Clean.line "Untitled" name) :=
    Clean.inline_line (by decide) name
  have hne : Clean.line "Untitled" name ≠ [] := Clean.line_ne_nil (by decide) name
  refine .of_ends (c := 'R') (z := '{') rfl (by decide)
    (List.getLast?_append_of_ne_nil _ (by decide)) (by decide) ?_ ?_
  · simp only [List.forall_mem_append]
    exact ⟨⟨⟨⟨by decide, hn.no_break⟩, by decide⟩, not_isBreak_intDigits p.toInt⟩, by decide⟩
  · rw [read, if_neg (by simp), readRule_written hn hne p]
    rfl

theorem not_isBreak_triggerText (t : Option Trigger) :
    ∀ c ∈ Script.triggerText t, ¬IsBreak c := by
  cases t with
  | none => decide
  | some t =>
    have hv := isWordOf_event t.event
    have he := isWordOf_entity t.entity
    have hp := isName_of_mem_property (t.property.getD "")
    rw [triggerText_some]
    simp only [List.forall_mem_append]
    refine ⟨⟨⟨⟨hv.inline_name.no_break, by decide⟩, he.inline_name.no_break⟩, ?_⟩, by decide⟩
    split
    · rename_i h
      exact List.forall_mem_cons.2 ⟨by decide, (IsWordOf.mk h.2 hp).inline_name.no_break⟩
    · exact fun c hc => absurd hc List.not_mem_nil

theorem exists_triggerText_concat (t : Option Trigger) :
    ∃ s, Script.triggerText t = s ++ [')'] := by
  cases t with
  | none => exact ⟨"UPDATE(Entity".toList, by decide⟩
  | some t => exact ⟨_, triggerText_some t⟩

theorem writes_triggerLine (t : Option Trigger) :
    Writes ("ON ".toList ++ Script.triggerText t) (.triggerHeader (Trigger.written t)) := by
  obtain ⟨s, hs⟩ := exists_triggerText_concat t
  refine .of_ends (c := 'O') (z := ')') rfl (by decide) ?_ (by decide) ?_ ?_
  · rw [hs, ← List.append_assoc, List.getLast?_concat]
  · exact List.forall_mem_append.2 ⟨by decide, not_isBreak_triggerText t⟩
  · rw [read, if_neg (by simp), readOn_triggerText t]
    rfl

theorem inline_type (p : Parameter) : Inline (Clean.line "Any" p.type) :=
  Clean.inline_line (by decide) p.type

theorem isWordOf_parameter (p : Parameter) : IsWordOf isName (Clean.name "param" p.name) :=
  Clean.isWordOf_name (by decide) p.name

theorem not_isBreak_parameterText (p : Parameter) :
    ∀ c ∈ Script.parameterText p, ¬IsBreak c := by
  simp only [Script.parameterText, List.forall_mem_append]
  refine ⟨⟨⟨(isWordOf_parameter p).inline_name.no_break, by decide⟩, (inline_type p).no_break⟩, ?_⟩
  cases p.optional <;> decide

theorem not_isBreak_parametersText (ps : List Parameter) :
    ∀ c ∈ Script.parametersText ps, ¬IsBreak c := by
  unfold Script.parametersText
  split
  · decide
  · simp only [List.forall_mem_append]
    refine ⟨⟨by decide, fun c hc => ?_⟩, by decide⟩
    rcases mem_join hc with hc | ⟨l, hl, hc⟩
    · exact (by decide : ∀ c ∈ ", ".toList, ¬IsBreak c) c hc
    · obtain ⟨p, -, rfl⟩ := List.mem_map.1 hl
      exact not_isBreak_parameterText p c hc

theorem writes_actionLine (entityType name : String) (ps : List Parameter) :
    Writes ("ACTION ".toList ++ Clean.name "Entity" entityType ++ ['.'] ++ Script.actionName name ++
        Script.parametersText ps ++ [' ', '{'])
      (.actionHeader (String.ofList (Clean.name "Entity" entityType))
        (String.ofList (Script.actionName name)) (readParameters (parametersBody ps))) := by
  have he := isWordOf_entity entityType
  refine .of_ends (c := 'A') (z := '{') rfl (by decide)
    (List.getLast?_append_of_ne_nil _ (by decide)) (by decide) ?_ ?_
  · simp only [List.forall_mem_append]
    exact ⟨⟨⟨⟨⟨by decide, he.inline_name.no_break⟩, by decide⟩, (inline_actionName name).no_break⟩,
      not_isBreak_parametersText ps⟩, by decide⟩
  · rw [read, if_neg (by simp), readAction_written he name ps]
    rfl

theorem writes_descriptionLine {s : List Char} (hs : ∀ c ∈ s, ¬IsBreak c) :
    Writes ("DESCRIPTION: \"".toList ++ escape s ++ ['"'])
      (.descriptionHeader (String.ofList s)) := by
  refine .of_ends (c := 'D') (z := '"') rfl (by decide) List.getLast?_concat (by decide) ?_ ?_
  · simp only [List.forall_mem_append]
    exact ⟨⟨by decide, not_isBreak_escape hs⟩, by decide⟩
  · rw [read, if_neg (by simp), readDescription_written s]
    rfl

end Line

end Blockscript
