import Blockscript.Proofs.Session.Reports

/-!
# Edits in a form

A form has one field for each input of the selected method, and the arguments of a call are a list
of their own: a name may be missing from it, stand in it twice, or be unknown to the form. `Bound`
says what an edit in a form does to the list. The main statement, `editArgument_form`, is that an
edit binds a declared name to its value and leaves all else alone, and that the last of two edits
counts.
-/

namespace Blockscript

namespace CallEditors

/-! ## Lists of arguments -/

/-- Whether a list of arguments is left by giving a name a value: the first argument of that name
has it in place, or one is added at the end if there was none. -/
inductive Bound (name value : String) : List CallArg → List CallArg → Prop
  | first {before after : List CallArg} (old : String) (h : ∀ a ∈ before, a.name ≠ name) :
    Bound name value (before ++ ⟨name, old⟩ :: after) (before ++ ⟨name, value⟩ :: after)
  | added {args : List CallArg} (h : ∀ a ∈ args, a.name ≠ name) :
    Bound name value args (args ++ [⟨name, value⟩])

variable {name value : String} {args args' : List CallArg}

/-- An argument of another name in front makes no difference. -/
theorem Bound.cons (h : Bound name value args args') {a : CallArg} (ha : a.name ≠ name) :
    Bound name value (a :: args) (a :: args') := by
  cases h with
  | first old hbefore => exact .first old (List.forall_mem_cons.2 ⟨ha, hbefore⟩)
  | added hargs => exact .added (List.forall_mem_cons.2 ⟨ha, hargs⟩)

theorem bound_bind (name value : String) (args : List CallArg) :
    Bound name value args (bind name value args) := by
  induction args with
  | nil => exact .added (by simp)
  | cons a args ih =>
    rw [bind]
    split
    · rename_i ha
      obtain ⟨_, old⟩ := a
      obtain rfl : _ = name := ha
      exact @Bound.first _ value [] args old (by simp)
    · rename_i ha
      exact ih.cons ha

/-- The last of two values counts. -/
theorem bind_bind (name v w : String) (args : List CallArg) :
    bind name w (bind name v args) = bind name w args := by
  induction args with
  | nil => simp [bind]
  | cons a args ih =>
    by_cases ha : a.name = name
    · simp [bind, ha]
    · simp [bind, ha, ih]

/-- The name has the value, and all others keep theirs. -/
theorem valueOf_bind (name value : String) (args : List CallArg) (other : String) :
    valueOf (bind name value args) other = if other = name then value else valueOf args other := by
  unfold valueOf
  induction args with
  | nil =>
    by_cases h : other = name
    · simp [bind, h]
    · simp [bind, h, Ne.symm h]
  | cons a args ih =>
    by_cases ha : a.name = name
    · by_cases h : other = name
      · simp [bind, ha, h]
      · simp [bind, ha, h, Ne.symm h]
    · by_cases h : a.name = other
      · have hne : other ≠ name := h ▸ ha
        simp [bind, h, hne]
      · simpa [bind, ha, h] using ih

/-! ## Forms -/

/-- The form shows the value in every field of that name. -/
theorem form_bind (c : CallEditors) (id : BlockId) (name value : String) (args : List CallArg) :
    c.form id (bind name value args) =
      (c.form id args).map fun i => if i.name = name then { i with value } else i := by
  unfold form
  rw [List.map_map]
  refine List.map_congr_left fun f _ => ?_
  rw [Function.comp_apply, valueOf_bind]
  split <;> rfl

theorem editField_of_mem {c : CallEditors} {id : BlockId} {fields : List InputField}
    (h : c.fields? id = some fields) (hname : name ∈ fields.map (·.name)) (value : String)
    (args : List CallArg) : c.editField id name value args = some (bind name value args) := by
  have hany : fields.any (·.name = name) = true := by simpa using hname
  rw [editField, h, Option.bind_some, if_pos hany]

theorem editField_of_not_mem {c : CallEditors} {id : BlockId} {fields : List InputField}
    (h : c.fields? id = some fields) (hname : name ∉ fields.map (·.name)) (value : String)
    (args : List CallArg) : c.editField id name value args = none := by
  have hany : ¬ fields.any (·.name = name) = true := by simpa using hname
  rw [editField, h, Option.bind_some, if_neg hany]

end CallEditors

namespace Session

open CallEditors

variable {s : Session} {id other : BlockId} {c : Call} {fields : List InputField} {name : String}

/-! ## Replacing the arguments of a call -/

/-- Setting the arguments reports whether they are others. -/
theorem fst_setArgs_iff (h : s.call? id = some c) (args : List CallArg) :
    (s.setArgs id args).1 = true ↔ args ≠ c.args := by
  have hset : (s.setArgs id args).1 = (s.setField id .args (.args args)).1 := by
    unfold setArgs setField
    cases s.setField? id .args (.args args) <;> rfl
  have hsame : c.withField .args (.args args) = c ↔ args = c.args := by
    obtain ⟨product, method, old⟩ := c
    simp [Call.withField]
  rw [hset, fst_setField_iff h, ne_eq, hsame]

/-- Setting the arguments that a call has changes nothing. -/
theorem setArgs_self (h : s.call? id = some c) : s.setArgs id c.args = (false, s) := by
  have hfst := fst_setArgs_iff h c.args
  unfold setArgs at hfst ⊢
  rcases hs : s.setField? id .args (.args c.args) with _ | t
  · rfl
  · rw [hs] at hfst
    exact absurd rfl (hfst.1 rfl)

theorem get?_setArgs_of_ne (h : s.call? id = some c) (hne : other ≠ id) (args : List CallArg) :
    (s.setArgs id args).2.get? other = s.get? other := by
  rcases s.setArgs_cases id args with hs | ⟨t, ht, hs⟩ <;> rw [hs]
  rcases setField?_cases ht with ⟨f, hf, rfl⟩ | ⟨hno, -⟩
  · have hget : f.get? other = s.statements.get? other := by
      rw [Forest.get?_of_update? hf]
      rcases hb : s.statements.get? other with _ | b
      · rfl
      · have hid : b.id ≠ id := Forest.id_of_get? hb ▸ hne
        rw [Option.map_some, if_neg hid]
    show (f.get? other).or (s.preconditions.get? other) = s.get? other
    rw [hget, get?]
  · cases hno.symm.trans (contains_of_call? h)

/-! ## Edits in the form of a call -/

section Declared

variable (hc : s.call? id = some c) (hform : s.calls.fields? id = some fields)

include hc hform

/-- A name that the form does not declare is refused. -/
theorem editArgument_of_not_mem (hname : name ∉ fields.map (·.name)) (value : String) :
    s.editArgument id name value = (false, s) := by
  rw [editArgument, hc, Option.bind_some, editField_of_not_mem hform hname]

variable (hname : name ∈ fields.map (·.name)) (value : String)

include hname

theorem editArgument_of_mem :
    s.editArgument id name value = s.setArgs id (bind name value c.args) := by
  rw [editArgument, hc, Option.bind_some, editField_of_mem hform hname]

theorem calls_editArgument : (s.editArgument id name value).2.calls = s.calls := by
  rw [editArgument_of_mem hc hform hname, calls_setArgs]

theorem call?_editArgument : (s.editArgument id name value).2.call? id =
    some { c with args := bind name value c.args } := by
  rw [editArgument_of_mem hc hform hname, call?_setArgs, hc, Option.map_some, if_pos rfl]

theorem form_editArgument : (s.editArgument id name value).2.form id =
    (s.form id).map fun i => if i.name = name then { i with value } else i := by
  unfold form
  rw [call?_editArgument hc hform hname, calls_editArgument hc hform hname, hc]
  exact s.calls.form_bind id name value c.args

/-- A second edit of the same name is made in the same form. -/
theorem editArgument_editArgument (w : String) :
    (s.editArgument id name value).2.editArgument id name w =
      (s.editArgument id name value).2.setArgs id (bind name w c.args) := by
  have hform' : (s.editArgument id name value).2.calls.fields? id = some fields := by
    rwa [calls_editArgument hc hform hname]
  rw [editArgument_of_mem (call?_editArgument hc hform hname value) hform' hname, bind_bind]

theorem editArgument_again : (s.editArgument id name value).2.editArgument id name value =
    (false, (s.editArgument id name value).2) := by
  rw [editArgument_editArgument hc hform hname]
  exact setArgs_self (call?_editArgument hc hform hname value)

theorem call?_editArgument_editArgument (w : String) :
    ((s.editArgument id name value).2.editArgument id name w).2.call? id =
      (s.editArgument id name w).2.call? id := by
  rw [editArgument_editArgument hc hform hname, call?_setArgs,
    call?_editArgument hc hform hname, call?_editArgument hc hform hname, Option.map_some,
    if_pos rfl]

end Declared

/-- **Edits in a form** bind by name and disturb nothing else. Whatever was done to a session, an
editor that is a form is that of a call. A name that the form does not declare is refused. A
declared one has the value from then on, in every field of that name and in the first argument of
that name, or in a new last one if there was none; no other argument, block or editor changes; the
answer says whether the arguments did; a second edit with the same value is refused; and a second
one with another value leaves the call as that one alone would have left it. -/
theorem editArgument_form (start : Start) (ops : List Op) {e : CallEditor}
    (h : (start.session.performAll ops).calls.editor? id = some e)
    (he : e.editor = .structured fields) (name value : String) :
    let s := start.session.performAll ops
    let t := (s.editArgument id name value).2
    ∃ c, s.statements.get? id = some ⟨id, .call c⟩ ∧
      (name ∉ fields.map (·.name) → s.editArgument id name value = (false, s)) ∧
      (name ∈ fields.map (·.name) →
        t.form id = (s.form id).map (fun i => if i.name = name then { i with value } else i) ∧
        (∃ args, t.call? id = some { c with args } ∧ Bound name value c.args args ∧
          ((s.editArgument id name value).1 = true ↔ args ≠ c.args)) ∧
        t.calls = s.calls ∧ (∀ other ≠ id, t.get? other = s.get? other) ∧
        t.editArgument id name value = (false, t) ∧
        ∀ w, (t.editArgument id name w).2.call? id = (s.editArgument id name w).2.call? id) := by
  intro s t
  obtain ⟨c, hc, -⟩ := (consistent_start start).performAll ops id e h
  have hform : s.calls.fields? id = some fields := by
    obtain ⟨selection, editor, status, manual, schema⟩ := e
    cases he
    rw [fields?, h]
  refine ⟨c, get?_of_call? hc, fun hname => editArgument_of_not_mem hc hform hname value, ?_⟩
  intro hname
  have hanswer : (s.editArgument id name value).1 = true ↔ bind name value c.args ≠ c.args := by
    rw [editArgument_of_mem hc hform hname]
    exact fst_setArgs_iff hc _
  refine ⟨form_editArgument hc hform hname value, ⟨_, call?_editArgument hc hform hname value,
    bound_bind name value c.args, hanswer⟩, calls_editArgument hc hform hname value, ?_,
    editArgument_again hc hform hname value, call?_editArgument_editArgument hc hform hname value⟩
  intro other hne
  show (s.editArgument id name value).2.get? other = s.get? other
  rw [editArgument_of_mem hc hform hname]
  exact get?_setArgs_of_ne hc hne _

/-- A call in a form with a field that stands in it twice and two arguments of that name, behind one
that the form does not declare. -/
def repeatedName : List Op :=
  [.add .top (.call ⟨"p", "m", [⟨"x", "0"⟩, ⟨"a", "1"⟩, ⟨"a", "2"⟩]⟩), .select ⟨0⟩ "p" "m",
    .deliver ⟨⟨0⟩, "p", "m", 1⟩ (.ok [⟨"a", "Int"⟩, ⟨"b", "Int"⟩, ⟨"a", "Int"⟩])]

theorem editArgument_form_repeatedName :
    let s := (Session.new .rule { name := "R" }).performAll repeatedName
    s.editArgument ⟨0⟩ "x" "9" = (false, s) ∧
      (s.editArgument ⟨0⟩ "a" "9").2.form ⟨0⟩ =
        [⟨"a", "Int", "9"⟩, ⟨"b", "Int", ""⟩, ⟨"a", "Int", "9"⟩] ∧
      (s.editArgument ⟨0⟩ "a" "9").2.call? ⟨0⟩ =
        some ⟨"p", "m", [⟨"x", "0"⟩, ⟨"a", "9"⟩, ⟨"a", "2"⟩]⟩ := by
  intro s
  have h : s.calls.editor? ⟨0⟩ = some ⟨some ⟨⟨0⟩, "p", "m", 1⟩,
      .structured [⟨"a", "Int"⟩, ⟨"b", "Int"⟩, ⟨"a", "Int"⟩], .ready, false,
      some [⟨"a", "Int"⟩, ⟨"b", "Int"⟩, ⟨"a", "Int"⟩]⟩ := by
    decide +kernel
  obtain ⟨_, -, hundeclared, -⟩ :=
    editArgument_form (.opened (.new .rule { name := "R" })) repeatedName h rfl "x" "9"
  obtain ⟨_, -, -, hdeclared⟩ :=
    editArgument_form (.opened (.new .rule { name := "R" })) repeatedName h rfl "a" "9"
  have hshown : s.form ⟨0⟩ = [⟨"a", "Int", "1"⟩, ⟨"b", "Int", ""⟩, ⟨"a", "Int", "1"⟩] := by
    decide +kernel
  have hcall : (s.editArgument ⟨0⟩ "a" "9").2.call? ⟨0⟩ =
      some ⟨"p", "m", [⟨"x", "0"⟩, ⟨"a", "9"⟩, ⟨"a", "2"⟩]⟩ := by
    decide +kernel
  obtain ⟨hform, -⟩ := hdeclared (by decide)
  refine ⟨hundeclared (by decide), hform.trans ?_, hcall⟩
  show (s.form ⟨0⟩).map _ = _
  rw [hshown]
  decide

end Session

end Blockscript
