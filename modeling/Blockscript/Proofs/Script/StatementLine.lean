import Blockscript.Proofs.Arguments.Settled
import Blockscript.Proofs.Script.Normal
import Blockscript.Proofs.Text.Reading
import Blockscript.Script.Line

/-!
# Lines of blocks

Every line that is written for a block stands on a line of its own and is read as the normal form
of that block (`writes_statementLine`, `writes_preconditionLine`, `writes_failureLine`): the
delimiters of a line are found where they were put, whatever the fields between them hold.
-/

namespace Blockscript.Line

open Text

/-- Whether a text fits on a line, is neither blank nor a comment, and says `said`. -/
structure Writes (s : List Char) (said : Line) : Prop extends Inline s where
  start : ∃ c ∈ s.head?, c ≠ '/'
  read_eq : read s = said

theorem Writes.of_ends {s : List Char} {said : Line} {c z : Char} (hc : s.head? = some c)
    (hc' : isBlank c = false ∧ c ≠ '/') (hz : s.getLast? = some z) (hz' : isBlank z = false)
    (hb : ∀ d ∈ s, ¬IsBreak d) (hs : read s = said) : Writes s said where
  head d hd := by rw [hc, Option.mem_some_iff] at hd; exact hd ▸ hc'.1
  last d hd := by rw [hz, Option.mem_some_iff] at hd; exact hd ▸ hz'
  no_break := hb
  start := ⟨c, hc, hc'.2⟩
  read_eq := hs

theorem isWordOf_entity (entity : String) : IsWordOf isName (Clean.name "Entity" entity) :=
  Clean.isWordOf_name (by decide) entity

/-! ## Assignments and triggers -/

theorem readSet_written {p v : List Char} (hp : IsWordOf Clean.isPath p) (hv : Inline v) :
    readSet ("SET ".toList ++ p ++ " = ".toList ++ v ++ [';']) =
      some (.statement (.set (String.ofList p) (String.ofList v))) := by
  have hform : "SET ".toList ++ p ++ " = ".toList ++ v ++ [';'] =
      "SET".toList ++ (([' '] ++ p ++ [' ']) ++ '=' :: ([' '] ++ v ++ [';'])) := by simp
  have hcut : '=' ∉ [' '] ++ p ++ [' '] := by
    simp [hp.not_mem (d := '=') (by decide)]
  have hlen : (startsBlank ([' '] ++ p ++ [' ']) && ([' '] ++ p ++ [' ']).length ≥ 2) = true := by
    simp [startsBlank]
    decide
  have htight : Tight p := (hp.inline fun _ => Clean.isBlank_of_isPath).toTight
  have hvalue : trim ([' '] ++ v) = v := by
    have := trim_padded blanks_space hv.toTight blanks_nil
    rwa [List.append_nil] at this
  rw [hform, readSet]
  simp only [Option.bind_eq_bind]
  refine Option.bind_eq_some_iff.2 ⟨_, expect_append _ _, ?_⟩
  refine Option.bind_eq_some_iff.2 ⟨_, cut_append hcut _, ?_⟩
  refine (if_pos hlen).trans ?_
  rw [trim_padded blanks_space htight blanks_space, dropSemicolon_concat, hvalue]

theorem readTrigger_written {e a t : List Char} (he : IsWordOf isName e) (ha : IsWordOf isName a)
    (ht : Inline t) (hne : t ≠ []) :
    readTrigger ("TRIGGER ".toList ++ e ++ ['.'] ++ a ++ " ON ".toList ++ t ++ [';']) =
      some (.statement (.trigger (String.ofList e) (String.ofList a) (String.ofList t))) := by
  have hform : "TRIGGER ".toList ++ e ++ ['.'] ++ a ++ " ON ".toList ++ t ++ [';'] =
      "TRIGGER".toList ++ (' ' :: (e ++ (['.'] ++ (a ++ (' ' :: ("ON".toList ++
        (' ' :: (t ++ [';'])))))))) := by simp
  have haction : ∀ c ∈ a, (!isBlank c) = true := by
    intro c hc
    rw [isBlank_of_isName (ha.all c hc), Bool.not_false]
  rw [hform, readTrigger]
  simp only [Option.bind_eq_bind]
  refine Option.bind_eq_some_iff.2 ⟨_, expect_append _ _, ?_⟩
  refine Option.bind_eq_some_iff.2
    ⟨_, expectBlank_space (isBlank_head?_append he.inline_name.toTight he.ne_nil _), ?_⟩
  refine Option.bind_eq_some_iff.2
    ⟨_, run_append (he.not_blank_ne (by decide)) (by simp) he.ne_nil, ?_⟩
  refine Option.bind_eq_some_iff.2 ⟨_, expect_append _ _, ?_⟩
  refine Option.bind_eq_some_iff.2 ⟨_, run_append haction (by simp; decide) ha.ne_nil, ?_⟩
  refine Option.bind_eq_some_iff.2 ⟨_, expectBlank_space (by simp; decide), ?_⟩
  refine Option.bind_eq_some_iff.2 ⟨_, expect_append _ _, ?_⟩
  refine Option.bind_eq_some_iff.2
    ⟨_, expectBlank_space (isBlank_head?_append ht.toTight hne _), ?_⟩
  rw [dropSemicolon_concat, ht.trim_eq]

/-! ## Loops -/

/-- The end of a loop, from its filter on. -/
theorem readFilter_written (conditions : Option String) :
    (readFilter (Script.filterText conditions ++ [')', ' ', '{']) <|>
        readNoFilter (Script.filterText conditions ++ [')', ' ', '{'])) =
      some (Clean.optional conditions) := by
  by_cases h : oneLine ((conditions.getD "").toList) = []
  · rw [Clean.optional_eq_none h, Script.filterText, h]
    rfl
  · have hs := inline_oneLine ((conditions.getD "").toList)
    have htext : Script.filterText conditions ++ [')', ' ', '{'] =
        ' ' :: ("WHERE".toList ++ (' ' :: (oneLine ((conditions.getD "").toList) ++
          [')', ' ', '{']))) := by
      unfold Script.filterText
      split
      · contradiction
      · simp
    rw [Clean.optional_eq_some h, htext]
    generalize oneLine ((conditions.getD "").toList) = s at h hs
    have hread : readFilter (' ' :: ("WHERE".toList ++ (' ' :: (s ++ [')', ' ', '{'])))) =
        some (some (String.ofList s)) := by
      have hend : s ++ [')', ' ', '{'] = ((s ++ [')']) ++ [' ']) ++ ['{'] := by simp
      rw [readFilter]
      simp only [Option.bind_eq_bind]
      refine Option.bind_eq_some_iff.2 ⟨_, expectBlank_space (by simp; decide), ?_⟩
      refine Option.bind_eq_some_iff.2 ⟨_, expect_append _ _, ?_⟩
      refine Option.bind_eq_some_iff.2
        ⟨_, expectBlank_space (isBlank_head?_append hs.toTight h _), ?_⟩
      rw [hend]
      refine Option.bind_eq_some_iff.2 ⟨_, beforeFinal_append _ _, ?_⟩
      rw [trimEnd_append_of_blanks _ blanks_space, trimEnd_concat_of_not _ (by decide)]
      refine Option.bind_eq_some_iff.2 ⟨_, beforeFinal_append _ _, ?_⟩
      rw [hs.trim_eq]
      cases s with
      | nil => exact absurd rfl h
      | cons c s => rfl
    rw [hread]
    rfl

theorem isBlank_head?_filterText (conditions : Option String) :
    ∀ c ∈ (Script.filterText conditions ++ [')', ' ', '{']).head?,
      (!isBlank c && c != ')') = false := by
  unfold Script.filterText
  split <;> simp [isBlank]

theorem readFor_written {b e : List Char} (hb : IsWordOf isName b) (he : IsWordOf isName e)
    (conditions : Option String) :
    readFor ("FOR (".toList ++ b ++ ": ".toList ++ e ++ Script.filterText conditions ++
        [')', ' ', '{']) =
      some (.statement (.forEach (String.ofList b) (String.ofList e)
        (Clean.optional conditions))) := by
  have hform : "FOR (".toList ++ b ++ ": ".toList ++ e ++ Script.filterText conditions ++
      [')', ' ', '{'] =
      "FOR".toList ++ ([' '] ++ (['('] ++ (b ++ ([':'] ++ ([' '] ++ (e ++
        (Script.filterText conditions ++ [')', ' ', '{']))))))) := by simp
  have hbinder := isBlank_head?_append hb.inline_name.toTight hb.ne_nil
  have hentity := isBlank_head?_append he.inline_name.toTight he.ne_nil
  have hstop := isBlank_head?_filterText conditions
  have hread := readFilter_written conditions
  rw [hform, readFor]
  simp only [Option.bind_eq_bind]
  generalize Script.filterText conditions ++ [')', ' ', '{'] = r at hstop hread
  refine Option.bind_eq_some_iff.2 ⟨_, expect_append _ _, ?_⟩
  rw [trimStart_append_of_blanks blanks_space, trimStart_eq_self (by simp; decide)]
  refine Option.bind_eq_some_iff.2 ⟨_, expect_append _ _, ?_⟩
  rw [trimStart_eq_self (hbinder _)]
  refine Option.bind_eq_some_iff.2
    ⟨_, run_append (hb.not_blank_ne (by decide)) (by simp) hb.ne_nil, ?_⟩
  dsimp only
  rw [trimStart_eq_self (by simp; decide)]
  refine Option.bind_eq_some_iff.2 ⟨_, expect_append _ _, ?_⟩
  rw [trimStart_append_of_blanks blanks_space, trimStart_eq_self (hentity _)]
  refine Option.bind_eq_some_iff.2
    ⟨_, run_append (he.not_blank_ne (by decide)) hstop he.ne_nil, ?_⟩
  exact Option.bind_eq_some_iff.2 ⟨_, hread, rfl⟩

/-! ## Calls -/

theorem isName_or_of_mem_productText {text : String} (h : (split '.' (Clean.productText text)).all
    Clean.isIdentifier = true) : ∀ c ∈ Clean.productText text, isName c = true ∨ c = '.' := by
  intro c hc
  rw [← join_split '.' (Clean.productText text)] at hc
  rcases mem_join hc with hc | ⟨s, hs, hc⟩
  · exact .inr (List.mem_singleton.1 hc)
  · have hid := List.all_eq_true.1 h s hs
    cases s with
    | nil => exact absurd hc List.not_mem_nil
    | cons d s =>
      rw [Clean.isIdentifier, Bool.and_eq_true, List.all_eq_true] at hid
      rcases List.mem_cons.1 hc with rfl | hc
      · left
        have := hid.1
        simp only [isName, Char.isAlphanum, Bool.or_eq_true] at this ⊢
        exact this.imp_left .inl
      · exact .inl (hid.2 c hc)

theorem isWordOf_method (method : String) : IsWordOf isName (Clean.name "method" method) :=
  Clean.isWordOf_name (by decide) method

section Target

variable {m r : List Char} (hm : IsWordOf isName m) (hr : ∀ c ∈ r.head?, c = '(')

include hm hr

theorem readQuotedTarget_written {p : List Char} (hquote : '"' ∉ p) (hp : Tight p) :
    readQuotedTarget (['"'] ++ (p ++ '"' :: (['.'] ++ (m ++ r)))) = some (p, m, r) := by
  have hword : ∀ c ∈ m, isWord c = true := fun c hc => isWord_of_isName (hm.all c hc)
  have hstop : ∀ c ∈ r.head?, isWord c = false := by
    intro c hc
    rw [hr c hc]
    decide
  rw [readQuotedTarget]
  simp only [Option.bind_eq_bind]
  refine Option.bind_eq_some_iff.2 ⟨_, expect_append _ _, ?_⟩
  refine Option.bind_eq_some_iff.2 ⟨_, cut_append hquote _, ?_⟩
  refine Option.bind_eq_some_iff.2 ⟨_, expect_append _ _, ?_⟩
  refine Option.bind_eq_some_iff.2 ⟨_, run_append hword hstop hm.ne_nil, ?_⟩
  rw [hp.trim_eq]

theorem readBareTarget_written {p : List Char} (hp : ∀ c ∈ p, isName c = true ∨ c = '.')
    (hne : p ≠ []) : readBareTarget ((p ++ '.' :: m) ++ r) = some (p, m, r) := by
  have hword : ∀ c ∈ m, isWord c = true := fun c hc => isWord_of_isName (hm.all c hc)
  have hall : ∀ c ∈ p ++ '.' :: m, (isWord c || c == '$' || c == '.' || c == '-') = true := by
    intro c hc
    rcases List.mem_append.1 hc with hc | hc
    · rcases hp c hc with hc | rfl
      · rw [isWord_of_isName hc]
        rfl
      · decide
    · rcases List.mem_cons.1 hc with rfl | hc
      · decide
      · rw [hword c hc]
        rfl
  have hend : ∀ c ∈ r.head?, (isWord c || c == '$' || c == '.' || c == '-') = false := by
    intro c hc
    rw [hr c hc]
    decide
  have hlast : p ≠ [] ∧ m ≠ [] ∧ m.all isWord = true :=
    ⟨hne, hm.ne_nil, List.all_eq_true.2 hword⟩
  rw [readBareTarget]
  simp only [Option.bind_eq_bind]
  refine Option.bind_eq_some_iff.2 ⟨_, run_append hall hend (by simp), ?_⟩
  refine Option.bind_eq_some_iff.2 ⟨_, cutLast_append (hm.not_mem (by decide)) _, ?_⟩
  exact if_pos hlast

/-- A product that needs quotes is read out of them, another one without. -/
theorem readTarget_written (text : String) :
    (readQuotedTarget (Clean.product text ++ ['.'] ++ m ++ r) <|>
        readBareTarget (Clean.product text ++ ['.'] ++ m ++ r)) =
      some (Clean.productText text, m, r) := by
  rw [Clean.product_eq]
  split
  · rename_i hid
    have hmem := isName_or_of_mem_productText hid
    have hne := Clean.productText_ne_nil text
    generalize Clean.productText text = p at hmem hne
    have hquoted : readQuotedTarget (p ++ ['.'] ++ m ++ r) = none := by
      cases p with
      | nil => exact absurd rfl hne
      | cons c p =>
        have hc : '"' ≠ c := by
          rintro rfl
          exact absurd (hmem '"' List.mem_cons_self) (by decide)
        rw [List.cons_append, List.cons_append, List.cons_append, readQuotedTarget, expect,
          if_neg hc]
        rfl
    rw [hquoted, List.append_assoc p, List.singleton_append]
    exact readBareTarget_written hm hr hmem hne
  · have hread := readQuotedTarget_written hm hr (Clean.quote_not_mem_productText text)
      (Clean.inline_productText text).toTight
    generalize Clean.productText text = p at hread
    have hform : '"' :: p ++ ['"'] ++ ['.'] ++ m ++ r =
        ['"'] ++ (p ++ '"' :: (['.'] ++ (m ++ r))) := by
      simp
    rw [hform, hread]
    rfl

end Target

/-- The arguments of a call as its line holds them. -/
def argsText (args : List CallArg) : List Char :=
  if args = [] then ['{', '}'] else Arguments.write args

theorem read_argsText {args : List CallArg} (h : Arguments.WellFormed args) :
    Arguments.read (argsText args) = args := by
  unfold argsText
  split
  · rename_i hnil
    rw [hnil]
    rfl
  · exact Arguments.read_write h

theorem callLine_eq (c : Call) : Script.callLine c = "CALL ".toList ++ Clean.product c.product ++
    ['.'] ++ Clean.name "method" c.method ++ ['('] ++ argsText (Clean.args c.args) ++
    ");".toList := rfl

theorem isBlank_head?_product (text : String) (r : List Char) :
    ∀ c ∈ (Clean.product text ++ r).head?, isBlank c = false := by
  rw [Clean.product_eq]
  split
  · exact isBlank_head?_append (Clean.inline_productText text).toTight
      (Clean.productText_ne_nil text) r
  · simp
    decide

theorem readCall_written (c : Call) :
    readCall (Script.callLine c) = some (.statement (BlockKind.call c).normal) := by
  have hm := isWordOf_method c.method
  have hform : Script.callLine c = "CALL".toList ++
      (' ' :: (Clean.product c.product ++ ['.'] ++ Clean.name "method" c.method ++
        (['('] ++ (argsText (Clean.args c.args) ++ [')'] ++ [';'])))) := by
    simp [callLine_eq]
  have hopen : ∀ d ∈ (['('] ++ (argsText (Clean.args c.args) ++ [')'] ++ [';'])).head?,
      d = '(' := by
    simp
  have hclose : beforeClosing ')' (argsText (Clean.args c.args) ++ [')'] ++ [';']) =
      some (argsText (Clean.args c.args)) := by
    rw [beforeClosing, dropSemicolon_concat, trimEnd_concat_of_not _ (by decide),
      beforeFinal_append]
  rw [hform, readCall]
  simp only [Option.bind_eq_bind]
  refine Option.bind_eq_some_iff.2 ⟨_, expect_append _ _, ?_⟩
  refine Option.bind_eq_some_iff.2 ⟨_, expectBlank_space ?_, ?_⟩
  · rw [List.append_assoc, List.append_assoc]
    exact isBlank_head?_product c.product _
  refine Option.bind_eq_some_iff.2 ⟨_, readTarget_written hm hopen c.product, ?_⟩
  dsimp only
  rw [trimStart_eq_self (by simp; decide)]
  refine Option.bind_eq_some_iff.2 ⟨_, expect_append _ _, ?_⟩
  refine Option.bind_eq_some_iff.2 ⟨_, hclose, ?_⟩
  rw [read_argsText (Arguments.wellFormed_args c.args)]
  rfl

/-! ## Preconditions -/

theorem readPrecondition_written {n t : List Char} (hn : IsWordOf isName n) (ht : Inline t) :
    readPrecondition ("PRECONDITION ".toList ++ n ++ ": ".toList ++ t) =
      some (.precondition (String.ofList n) (String.ofList t)) := by
  have hform : "PRECONDITION ".toList ++ n ++ ": ".toList ++ t =
      "PRECONDITION".toList ++ (' ' :: (n ++ ([':'] ++ ([' '] ++ t)))) := by simp
  have htrim : trim ([' '] ++ t) = t := by
    have := trim_padded blanks_space ht.toTight blanks_nil
    rwa [List.append_nil] at this
  rw [hform, readPrecondition]
  simp only [Option.bind_eq_bind]
  refine Option.bind_eq_some_iff.2 ⟨_, expect_append _ _, ?_⟩
  refine Option.bind_eq_some_iff.2
    ⟨_, expectBlank_space (isBlank_head?_append hn.inline_name.toTight hn.ne_nil _), ?_⟩
  refine Option.bind_eq_some_iff.2
    ⟨_, run_append (hn.not_blank_ne (by decide)) (by simp) hn.ne_nil, ?_⟩
  dsimp only
  rw [trimStart_eq_self (by simp; decide)]
  refine Option.bind_eq_some_iff.2 ⟨_, expect_append _ _, ?_⟩
  rw [htrim]

theorem expectQuoted_written (keyword s : List Char) :
    expectQuoted keyword (keyword ++ (": \"".toList ++ s)) = some s := by
  have hform : ": \"".toList ++ s = [':'] ++ ([' '] ++ (['"'] ++ s)) := by simp
  rw [hform, expectQuoted]
  simp only [Option.bind_eq_bind]
  refine Option.bind_eq_some_iff.2 ⟨_, expect_append _ _, ?_⟩
  rw [trimStart_eq_self (by simp; decide)]
  refine Option.bind_eq_some_iff.2 ⟨_, expect_append _ _, ?_⟩
  rw [trimStart_append_of_blanks blanks_space, trimStart_eq_self (by simp; decide)]
  exact expect_append _ _

theorem readFailure_written (s : List Char) :
    readFailure ("ON_FAILURE: \"".toList ++ escape s ++ ['"']) =
      some (.failure (String.ofList s)) := by
  have hform : "ON_FAILURE: \"".toList ++ escape s ++ ['"'] =
      "ON_FAILURE".toList ++ (": \"".toList ++ (escape s ++ ['"'])) := by simp
  have hclose : beforeClosing '"' (escape s ++ ['"']) = some (escape s) := by
    rw [beforeClosing, dropSemicolon_concat_of_ne (by decide), trimEnd_concat_of_not _ (by decide),
      beforeFinal_append]
  rw [hform, readFailure]
  simp only [Option.bind_eq_bind]
  refine Option.bind_eq_some_iff.2 ⟨_, expectQuoted_written _ _, ?_⟩
  refine Option.bind_eq_some_iff.2 ⟨_, hclose, ?_⟩
  rw [unescape_escape]

/-! ## What the lines say -/

theorem not_isBreak_escape {s : List Char} (h : ∀ c ∈ s, ¬IsBreak c) :
    ∀ c ∈ escape s, ¬IsBreak c := forall_mem_escape (by decide) h

theorem not_isBreak_product (text : String) : ∀ c ∈ Clean.product text, ¬IsBreak c := by
  have hp := (Clean.inline_productText text).no_break
  rw [Clean.product_eq]
  split
  · exact hp
  · simp only [List.forall_mem_append, List.forall_mem_cons]
    exact ⟨⟨by decide, hp⟩, by decide, by decide⟩

theorem not_isBreak_argsText (as : List CallArg) :
    ∀ c ∈ argsText (Clean.args as), ¬IsBreak c := by
  unfold argsText
  split
  · decide
  · exact Arguments.not_isBreak_of_mem_write
      (fun a ha => ((Arguments.wellFormed_args as).sound a ha).name) Arguments.inline_value

theorem not_isBreak_filterText (conditions : Option String) :
    ∀ c ∈ Script.filterText conditions, ¬IsBreak c := by
  unfold Script.filterText
  split
  · decide
  · exact List.forall_mem_append.2 ⟨by decide, (inline_oneLine _).no_break⟩

/-- **The line of a statement** says the normal form of the statement. -/
theorem writes_statementLine {kind : BlockKind} {s : List Char}
    (h : Script.statementLine kind = some s) : Writes s (.statement kind.normal) := by
  cases kind with
  | set target value =>
    obtain rfl := Option.some.inj h
    have hp : IsWordOf Clean.isPath (Clean.path "entity.prop" target) :=
      Clean.isWordOf_path (by decide) target
    have hv : Inline (Clean.line "\"\"" value) := Clean.inline_line Arguments.inline_quotes value
    refine .of_ends (c := 'S') (z := ';') rfl (by decide) List.getLast?_concat (by decide) ?_ ?_
    · simp only [List.forall_mem_append]
      exact ⟨⟨⟨⟨by decide, (hp.inline fun _ => Clean.isBlank_of_isPath).no_break⟩, by decide⟩,
        hv.no_break⟩, by decide⟩
    · rw [read, if_neg (by simp), readSet_written hp hv]
      rfl
  | trigger entity action target =>
    obtain rfl := Option.some.inj h
    have he := isWordOf_entity entity
    have ha : IsWordOf isName (Clean.name "action" action) :=
      Clean.isWordOf_name (by decide) action
    have ht : Inline (Clean.line "this" target) :=
      Clean.inline_line (by decide) target
    refine .of_ends (c := 'T') (z := ';') rfl (by decide) List.getLast?_concat (by decide) ?_ ?_
    · simp only [List.forall_mem_append]
      exact ⟨⟨⟨⟨⟨⟨by decide, he.inline_name.no_break⟩, by decide⟩, ha.inline_name.no_break⟩,
        by decide⟩, ht.no_break⟩, by decide⟩
    · have hne : Clean.line "this" target ≠ [] := Clean.line_ne_nil (by decide) target
      rw [read, if_neg (by simp), readTrigger_written he ha ht hne]
      rfl
  | forEach binder entity conditions =>
    obtain rfl := Option.some.inj h
    have hb : IsWordOf isName (Clean.name "item" binder) :=
      Clean.isWordOf_name (by decide) binder
    have he := isWordOf_entity entity
    refine .of_ends (c := 'F') (z := '{') rfl (by decide)
      (List.getLast?_append_of_ne_nil _ (by decide)) (by decide) ?_ ?_
    · simp only [List.forall_mem_append]
      exact ⟨⟨⟨⟨⟨by decide, hb.inline_name.no_break⟩, by decide⟩, he.inline_name.no_break⟩,
        not_isBreak_filterText conditions⟩, by decide⟩
    · rw [read, if_neg (by simp), readFor_written hb he conditions]
      rfl
  | precondition label conditions message => cases h
  | call c =>
    obtain rfl := Option.some.inj h
    have hm := isWordOf_method c.method
    rw [callLine_eq]
    refine .of_ends (c := 'C') (z := ';') rfl (by decide)
      (List.getLast?_append_of_ne_nil _ (by decide)) (by decide) ?_ ?_
    · simp only [List.forall_mem_append]
      exact ⟨⟨⟨⟨⟨⟨by decide, not_isBreak_product c.product⟩, by decide⟩, hm.inline_name.no_break⟩,
        by decide⟩, not_isBreak_argsText c.args⟩, by decide⟩
    · rw [← callLine_eq, read, if_neg (by simp [callLine_eq]), readCall_written c]
      rfl

/-- **The line of a precondition** says its normal label and conditions. -/
theorem writes_preconditionLine (label conditions : String) :
    Writes ("PRECONDITION ".toList ++ Clean.name "check" label ++ ": ".toList ++
        Clean.line "true" conditions)
      (.precondition (String.ofList (Clean.name "check" label))
        (String.ofList (Clean.line "true" conditions))) := by
  have hn : IsWordOf isName (Clean.name "check" label) :=
    Clean.isWordOf_name (by decide) label
  have ht : Inline (Clean.line "true" conditions) :=
    Clean.inline_line (by decide) conditions
  have hne : Clean.line "true" conditions ≠ [] := Clean.line_ne_nil (by decide) conditions
  refine ⟨⟨⟨?_, ?_⟩, ?_⟩, ⟨'P', rfl, by decide⟩, ?_⟩
  · exact fun c hc => by rw [← Option.some.inj hc]; decide
  · rw [List.getLast?_append_of_ne_nil _ hne]
    exact ht.last
  · simp only [List.forall_mem_append]
    exact ⟨⟨⟨by decide, hn.inline_name.no_break⟩, by decide⟩, ht.no_break⟩
  · rw [read, if_neg (by simp), readPrecondition_written hn ht]
    rfl

/-- **The line of a message** says the message. -/
theorem writes_failureLine {s : List Char} (hs : ∀ c ∈ s, ¬IsBreak c) :
    Writes ("ON_FAILURE: \"".toList ++ escape s ++ ['"']) (.failure (String.ofList s)) := by
  refine .of_ends (c := 'O') (z := '"') rfl (by decide) List.getLast?_concat (by decide) ?_ ?_
  · simp only [List.forall_mem_append]
    exact ⟨⟨by decide, not_isBreak_escape hs⟩, by decide⟩
  · rw [read, if_neg (by simp), readFailure_written s]
    rfl

theorem writes_effect : Writes ("EFFECT ".toList ++ ['{']) .effect :=
  .of_ends (c := 'E') (z := '{') rfl (by decide) List.getLast?_concat (by decide) (by decide) rfl

theorem writes_close : Writes ['}'] .close :=
  .of_ends (c := '}') (z := '}') rfl (by decide) rfl (by decide) (by decide) rfl

end Blockscript.Line
