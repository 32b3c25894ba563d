import Blockscript.Proofs.Forest.Enclosing
import Blockscript.Proofs.Session.Calls

/-!
# Tickets

Which answers a session uses. A ticket is `Current` if the operations so far issued it and none of
the later ones outdated it, and this is what `deliver` tells from the active selection of the block
alone: an operation that outdates the tickets of a block leaves it the one it issues itself, if any
(`selection?_of_outdates`), and every other operation leaves the selection as it is
(`selection?_of_not_outdates`). Tickets are numbered one after the other, so that no two of them are
equal (`nodup_tickets`).
-/

namespace Blockscript

/-! ## Active selections -/

namespace CallEditors

/-- The active selection of a block. -/
def selection? (c : CallEditors) (id : BlockId) : Option Selection :=
  (c.editor? id).bind (·.selection)

variable {c d : CallEditors} {id other : BlockId}

theorem selection?_put_self (c : CallEditors) (id : BlockId) (e : CallEditor) :
    (c.put id e).selection? id = e.selection := by
  rw [selection?, editor?_put_self, Option.bind_some]

theorem selection?_put_of_ne (c : CallEditors) (e : CallEditor) (h : other ≠ id) :
    (c.put id e).selection? other = c.selection? other := by
  rw [selection?, editor?_put_of_ne c e h, selection?]

theorem selection?_select_self (c : CallEditors) (id : BlockId) (product method : String)
    (args : List CallArg) : (c.select id product method args).2.selection? id =
      some (c.select id product method args).1 :=
  c.selection?_put_self id _

theorem selection?_select_of_ne (c : CallEditors) (product method : String) (args : List CallArg)
    (h : other ≠ id) :
    (c.select id product method args).2.selection? other = c.selection? other :=
  c.selection?_put_of_ne _ h

theorem selection?_retain (c : CallEditors) (keep : BlockId → Bool) (id : BlockId) :
    (c.retain keep).selection? id = if keep id then c.selection? id else none := by
  rw [selection?, retain, selection?]
  dsimp only
  split <;> rfl

theorem selection_getOrNew (c : CallEditors) (id : BlockId) (args : List CallArg) :
    (c.getOrNew id args).selection = c.selection? id := by
  rw [getOrNew, selection?]
  cases c.editor? id <;> rfl

/-- Whether the active selections are the same, and as many were made. -/
structure SameSelections (c d : CallEditors) : Prop where
  latest_eq : d.latest = c.latest
  selection?_eq : ∀ id, d.selection? id = c.selection? id

namespace SameSelections

theorem of_eq (h : d = c) : SameSelections c d := ⟨by rw [h], fun id => by rw [h]⟩

/-- Putting an editor in place keeps the selections if it keeps that of the block. -/
theorem put {e : CallEditor} (h : e.selection = c.selection? id) :
    SameSelections c (c.put id e) := by
  refine ⟨rfl, fun other => ?_⟩
  by_cases hne : other = id
  · rw [hne, selection?_put_self, h]
  · rw [selection?_put_of_ne c e hne]

end SameSelections

end CallEditors

namespace Session

/-! ## The history of a session -/

/-- The ticket that an operation issues. -/
def issued? (s : Session) : Op → Option Selection
  | .select id product method => (s.select id product method).1
  | _ => none

/-- The tickets that operations issue, one after the other. -/
def tickets (s : Session) : List Op → List Selection
  | [] => []
  | e :: ops => (s.issued? e).toList ++ (s.perform e).tickets ops

/-- Whether an operation outdates the tickets of a block issued so far: it issues another one for
the block, replaces its product or method by another, removes the block or one that it stands under,
or reads all blocks anew. -/
def Outdates (s : Session) (id : BlockId) : Op → Prop
  | .select id' product method => id' = id ∧ (s.select id' product method).1.isSome = true
  | .update id' field value =>
    id' = id ∧ (field = .product ∨ field = .method) ∧ (s.update id' field value).1 = true
  | .remove gone => s.statements.contains gone = true ∧ s.statements.Encloses gone id
  | .openText _ | .resync => True
  | _ => False

/-- Whether one of the operations issued the ticket and no later one outdated it. -/
def Current (s : Session) (ops : List Op) (ticket : Selection) : Prop :=
  ∃ before e after, ops = before ++ e :: after ∧
    (s.performAll before).issued? e = some ticket ∧
    ∀ mid later rest, after = mid ++ later :: rest →
      ¬ (s.performAll (before ++ e :: mid)).Outdates ticket.block later

variable {s t : Session} {id : BlockId} {ticket : Selection}

/-- Only selecting issues tickets. -/
theorem issued?_eq_some_iff {e : Op} : s.issued? e = some ticket ↔ ∃ id product method c,
    e = .select id product method ∧ s.call? id = some c ∧
      ticket = ⟨id, product, method, s.calls.latest + 1⟩ := by
  constructor
  · intro h
    cases e with
    | select id product method =>
      rw [issued?] at h
      rcases hc : s.call? id with _ | c
      · rw [select_of_none hc] at h
        cases h
      · rw [select_of_some hc] at h
        cases h
        exact ⟨id, product, method, c, rfl, hc, by rw [← calls_retarget s id product method]; rfl⟩
    | _ => cases h
  · rintro ⟨id, product, method, c, rfl, hc, rfl⟩
    rw [issued?, select_of_some hc, ← calls_retarget s id product method]
    rfl

/-- A ticket outdates those issued before for its block. -/
theorem outdates_of_issued? {e : Op} (h : s.issued? e = some ticket) :
    s.Outdates ticket.block e := by
  obtain ⟨id, product, method, c, rfl, -, rfl⟩ := issued?_eq_some_iff.1 h
  rw [issued?] at h
  exact ⟨rfl, by rw [h]; rfl⟩

theorem split_append_singleton {ops before after : List Op} {last e : Op}
    (h : ops ++ [last] = before ++ e :: after) : (before = ops ∧ e = last ∧ after = []) ∨
      ∃ rest, after = rest ++ [last] ∧ ops = before ++ e :: rest := by
  rcases List.eq_nil_or_concat after with rfl | ⟨rest, e', rfl⟩
  · obtain ⟨hops, he⟩ := List.append_inj' h rfl
    exact .inl ⟨hops.symm, (List.singleton_inj.1 he).symm, rfl⟩
  · rw [List.concat_eq_append, ← List.cons_append, ← List.append_assoc] at h
    obtain ⟨hops, he⟩ := List.append_inj' h rfl
    obtain rfl := List.singleton_inj.1 he
    exact .inr ⟨rest, List.concat_eq_append, hops⟩

/-- A ticket is current after one more operation if that issued it, or if it was current before and
the operation does not outdate it. -/
theorem current_append_singleton {ops : List Op} {e : Op} : s.Current (ops ++ [e]) ticket ↔
    (s.performAll ops).issued? e = some ticket ∨
      s.Current ops ticket ∧ ¬ (s.performAll ops).Outdates ticket.block e := by
  constructor
  · rintro ⟨before, e', after, hops, hissued, hlater⟩
    rcases split_append_singleton hops with ⟨rfl, rfl, -⟩ | ⟨after, rfl, rfl⟩
    · exact .inl hissued
    · refine .inr ⟨⟨before, e', after, rfl, hissued, ?_⟩, hlater after e [] rfl⟩
      rintro mid later rest rfl
      exact hlater mid later (rest ++ [e]) (List.append_assoc ..)
  · rintro (hissued | ⟨⟨before, e', after, rfl, hissued, hlater⟩, hnot⟩)
    · exact ⟨ops, e, [], rfl, hissued, fun mid later rest h => by cases mid <;> cases h⟩
    · refine ⟨before, e', after ++ [e], List.append_assoc .., hissued, ?_⟩
      intro mid later rest h
      rcases split_append_singleton h with ⟨rfl, rfl, -⟩ | ⟨rest, -, rfl⟩
      · exact hnot
      · exact hlater mid later rest rfl

/-! ## What becomes of the selections -/

theorem selection?_of_call?_eq_none (h : s.Consistent) (hc : s.call? id = none) :
    s.calls.selection? id = none := by
  rw [CallEditors.selection?]
  rcases he : s.calls.editor? id with _ | e
  · rfl
  · obtain ⟨c, hc', -⟩ := h id e he
    cases hc.symm.trans hc'

/-- Whether an operation leaves the selections alone, whatever the session. -/
def Op.KeepsSelections : Op → Prop
  | .select .. | .update .. | .remove _ | .openText _ | .resync => False
  | _ => True

theorem sameSelections_perform (s : Session) {e : Op} (he : e.KeepsSelections) :
    s.calls.SameSelections (s.perform e).calls := by
  cases e with
  | select id product method => cases he
  | update id field value => cases he
  | remove id => cases he
  | openText text => cases he
  | resync => cases he
  | add place kind =>
    rw [perform]
    rcases s.add_cases place kind with ht | ⟨-, f, -, ht⟩ | ⟨f, -, ht⟩ <;> rw [ht] <;>
      exact .of_eq rfl
  | reorder active goal =>
    rw [perform]
    rcases s.reorder_cases active goal with ht | ⟨f, -, ht⟩ | ⟨f, -, ht⟩ <;> rw [ht] <;>
      exact .of_eq rfl
  | setHeader header =>
    rw [perform, setHeader]
    split <;> exact .of_eq rfl
  | setSource text => exact .of_eq rfl
  | deliver ticket answer =>
    rw [perform]
    rcases s.deliver_cases ticket answer with ⟨-, ht⟩ | ⟨e, he, -, ht⟩ <;> rw [ht]
    · exact .of_eq rfl
    · refine .put ?_
      rw [CallEditors.selection?, he]
      cases answer <;> rfl
  | editArgument id name value =>
    rw [perform, editArgument]
    split
    · exact .of_eq rfl
    · exact .of_eq (s.calls_setArgs id _)
  | editFreeText id raw =>
    rw [perform]
    rcases hc : s.call? id with _ | c
    · rw [editFreeText, hc]
      exact .of_eq rfl
    · rw [editFreeText_of_some hc, calls_setArgs]
      exact .put (s.calls.selection_getOrNew id _)
  | setManual id manual =>
    rw [perform]
    rcases hc : s.call? id with _ | c
    · rw [setManual, hc]
      exact .of_eq rfl
    · rw [setManual_of_some hc]
      exact .put (s.calls.selection_getOrNew id c.args)
  | listen => exact .of_eq rfl

/-- **An operation that outdates** the tickets of a block leaves it the one that it issues. -/
theorem selection?_of_outdates (h : s.Consistent) {o : Outline} (hS : s.statements.Represents o)
    {e : Op} (he : s.Outdates id e) : (s.perform e).calls.selection? id = s.issued? e := by
  cases e with
  | select id' product method =>
    obtain ⟨rfl, hsome⟩ := he
    rcases hc : s.call? id' with _ | c
    · rw [select_of_none hc] at hsome
      cases hsome
    · rw [perform, issued?, select_of_some hc]
      exact CallEditors.selection?_select_self _ id' product method _
  | update id' field value =>
    obtain ⟨rfl, hfield, hdone⟩ := he
    rw [perform]
    rcases s.update_cases id' field value with ht | ⟨t, hset, ht⟩ <;> rw [ht] at hdone ⊢
    · cases hdone
    · show (t.followField id' field).calls.selection? id' = none
      rcases t.followField_cases id' field with
        ⟨hnone | ⟨hp, hm⟩, hf⟩ | ⟨c, -, -, hf⟩ | ⟨c, e, -, -, rfl, -⟩
      · rw [hf, calls_setField? hset]
        exact selection?_of_call?_eq_none h (call?_eq_none_of_setField? hset hnone)
      · exact (hfield.elim hp hm).elim
      · rw [hf, CallEditors.invalidate, CallEditors.selection?_put_self]
        rfl
      · rcases hfield with hfield | hfield <;> cases hfield
  | remove gone =>
    obtain ⟨hgone, hencloses⟩ := he
    have hne : s.statements.remove? gone ≠ none := fun hnone => by
      cases (Forest.remove?_eq_none_iff.1 hnone).symm.trans hgone
    rw [perform]
    rcases s.remove_cases gone with ⟨hnone, -⟩ | ⟨f, hf, ht⟩ | ⟨hnone, -⟩
    · exact absurd hnone hne
    · have hid : ¬ f.contains id = true := fun hid =>
        ((Forest.contains_of_remove?_iff hf).1 hid).2 ((hS.mem_family_iff hgone).2 hencloses)
      rw [ht]
      show (s.calls.retain f.contains).selection? id = none
      rw [CallEditors.selection?_retain, if_neg hid]
    · exact absurd hnone hne
  | openText text => rfl
  | resync => rfl
  | _ => cases he

/-- **Every other operation** leaves the selection of the block as it is. -/
theorem selection?_of_not_outdates (h : s.Consistent) {o : Outline}
    (hS : s.statements.Represents o) {e : Op} (he : ¬ s.Outdates id e) :
    (s.perform e).calls.selection? id = s.calls.selection? id := by
  by_cases hkeeps : e.KeepsSelections
  · exact (s.sameSelections_perform hkeeps).selection?_eq id
  cases e with
  | select id' product method =>
    rw [perform]
    rcases hc : s.call? id' with _ | c
    · rw [select_of_none hc]
    · have hne : id ≠ id' := fun hid => he ⟨hid.symm, by rw [select_of_some hc]; rfl⟩
      rw [select_of_some hc, CallEditors.selection?_select_of_ne _ _ _ _ hne, calls_retarget]
  | update id' field value =>
    rw [perform]
    rcases s.update_cases id' field value with ht | ⟨t, hset, ht⟩
    · rw [ht]
    · rw [ht, ← calls_setField? hset]
      show (t.followField id' field).calls.selection? id = t.calls.selection? id
      rcases t.followField_cases id' field with
        ⟨-, hf⟩ | ⟨c, -, hfield, hf⟩ | ⟨c, e, -, he', -, hf⟩ <;> rw [hf]
      · have hne : id ≠ id' := fun hid => he ⟨hid.symm, hfield, by rw [ht]⟩
        rw [CallEditors.invalidate, CallEditors.selection?_put_of_ne _ _ hne]
      · have hput : t.calls.SameSelections (t.calls.put id' (e.refresh c.args)) := by
          refine .put ?_
          rw [CallEditors.selection?, he', CallEditor.refresh]
          cases e.editor <;> rfl
        exact hput.selection?_eq id
  | remove gone =>
    rw [perform]
    rcases s.remove_cases gone with ⟨-, ht⟩ | ⟨f, hf, ht⟩ | ⟨-, f, -, ht⟩ <;> rw [ht]
    · show (s.calls.retain f.contains).selection? id = s.calls.selection? id
      rw [CallEditors.selection?_retain]
      by_cases hid : s.statements.contains id = true
      · have hgone := Forest.contains_of_remove? hf
        have hkept : id ∉ s.statements.family gone := fun hmem =>
          he ⟨hgone, (hS.mem_family_iff hgone).1 hmem⟩
        rw [if_pos ((Forest.contains_of_remove?_iff hf).2 ⟨hid, hkept⟩)]
      -- A block that is not among the statements had no selection to lose.
      · have hnone : s.call? id = none := by
          rw [call?, Forest.get?_eq_none_iff.2 (eq_false_of_ne_true hid), Option.bind_none]
        rw [selection?_of_call?_eq_none h hnone, ite_self]
    · rfl
  | openText text => exact absurd trivial he
  | resync => exact absurd trivial he
  | _ => exact absurd trivial hkeeps

/-- **The active selection** of a block is the ticket that is current for it. -/
theorem selection?_performAll_iff (start : Start) (ops : List Op) (ticket : Selection) :
    (start.session.performAll ops).calls.selection? ticket.block = some ticket ↔
      start.session.Current ops ticket := by
  -- From the last operation back: it decides alone if it outdates, and not at all otherwise.
  induction ops using List.reverseRecOn with
  | nil =>
    show start.session.calls.selection? ticket.block = _ ↔ _
    rw [CallEditors.selection?, editor?_start, Option.bind_none]
    refine ⟨nofun, ?_⟩
    rintro ⟨before, e, after, hops, -⟩
    cases before <;> cases hops
  | append_singleton ops e ih =>
    have h := (consistent_start start).performAll ops
    have hS := ((inStep_start start).performAll ops).statements.represents
    rw [current_append_singleton, performAll_append]
    show ((start.session.performAll ops).perform e).calls.selection? ticket.block = _ ↔ _
    by_cases he : (start.session.performAll ops).Outdates ticket.block e
    · rw [selection?_of_outdates h hS he]
      exact ⟨.inl, fun hor => hor.resolve_right fun hnot => hnot.2 he⟩
    · rw [selection?_of_not_outdates h hS he, ih]
      exact ⟨fun hcur => .inr ⟨hcur, he⟩,
        fun hor => (hor.resolve_left fun hissued => he (outdates_of_issued? hissued)).1⟩

/-! ## Numbers -/

theorem latest_perform (s : Session) (e : Op) :
    (s.perform e).calls.latest = s.calls.latest + (s.issued? e).toList.length := by
  by_cases hkeeps : e.KeepsSelections
  · rw [(s.sameSelections_perform hkeeps).latest_eq]
    cases e <;> first | rfl | cases hkeeps
  cases e with
  | select id product method =>
    rw [perform, issued?]
    rcases hc : s.call? id with _ | c
    · rw [select_of_none hc]
      rfl
    · rw [select_of_some hc, ← calls_retarget s id product method]
      rfl
  | update id field value =>
    rw [perform]
    rcases s.update_cases id field value with ht | ⟨t, hset, ht⟩ <;> rw [ht]
    · rfl
    · show (t.followField id field).calls.latest = s.calls.latest
      rw [← calls_setField? hset]
      rcases t.followField_cases id field with ⟨-, hf⟩ | ⟨c, -, -, hf⟩ | ⟨c, e, -, -, -, hf⟩ <;>
        rw [hf] <;> rfl
  | remove id =>
    rw [perform]
    rcases s.remove_cases id with ⟨-, ht⟩ | ⟨f, -, ht⟩ | ⟨-, f, -, ht⟩ <;> rw [ht] <;> rfl
  | openText text => rfl
  | resync => rfl
  | _ => exact absurd trivial hkeeps

theorem map_number_issued? (s : Session) (e : Op) : (s.issued? e).toList.map (·.number) =
    List.range' (s.calls.latest + 1) (s.issued? e).toList.length := by
  rcases h : s.issued? e with _ | ticket
  · rfl
  · obtain ⟨id, product, method, c, -, -, rfl⟩ := issued?_eq_some_iff.1 h
    rfl

theorem map_number_tickets (s : Session) (ops : List Op) : (s.tickets ops).map (·.number) =
    List.range' (s.calls.latest + 1) (s.tickets ops).length := by
  induction ops generalizing s with
  | nil => rfl
  | cons e ops ih =>
    rw [tickets, List.map_append, List.length_append, map_number_issued?, ih, latest_perform,
      Nat.add_right_comm, List.range'_append_1]

/-- **No two tickets** are equal. -/
theorem nodup_tickets (s : Session) (ops : List Op) : (s.tickets ops).Nodup := by
  have hnumbers : ((s.tickets ops).map (·.number)).Nodup := by
    rw [map_number_tickets]
    exact List.nodup_range'
  exact hnumbers.of_map

/-! ## Answers -/

/-- **Answers.** Tickets differ from each other. After any operations, an answer to a ticket is used
exactly if the ticket is current. An answer that comes too late changes nothing, and one that is
used changes the editor of the ticket's block and nothing else in the session. -/
theorem deliver_performAll (start : Start) (ops : List Op) (ticket : Selection)
    (answer : Except SchemaError (List InputField)) :
    (start.session.tickets ops).Nodup ∧
      (((start.session.performAll ops).deliver ticket answer).1 = .applied ↔
        start.session.Current ops ticket) ∧
      (((start.session.performAll ops).deliver ticket answer).1 = .stale →
        ((start.session.performAll ops).deliver ticket answer).2 =
          start.session.performAll ops) ∧
      ∃ calls, ((start.session.performAll ops).deliver ticket answer).2 =
          { start.session.performAll ops with calls } ∧
        calls.latest = (start.session.performAll ops).calls.latest ∧
        ∀ other ≠ ticket.block,
          calls.editor? other = (start.session.performAll ops).calls.editor? other := by
  refine ⟨nodup_tickets _ ops, ?_⟩
  rw [← selection?_performAll_iff]
  generalize start.session.performAll ops = s
  rcases s.deliver_cases ticket answer with ⟨hnot, ht⟩ | ⟨e, he, hsel, ht⟩ <;> rw [ht]
  · refine ⟨⟨nofun, fun hsel => ?_⟩, fun _ => rfl, s.calls, rfl, rfl, fun _ _ => rfl⟩
    obtain ⟨e, he, hsel⟩ := Option.bind_eq_some_iff.1 hsel
    exact absurd hsel (hnot e he)
  · refine ⟨⟨fun _ => ?_, fun _ => rfl⟩, nofun, _, rfl, rfl, fun other hne => ?_⟩
    · rw [CallEditors.selection?, he]
      exact hsel
    · exact CallEditors.editor?_put_of_ne s.calls _ hne

/-- A call for which one method is selected and then another one. -/
def reselected : List Op :=
  [.add .top (.call ⟨"p", "m", []⟩), .select ⟨0⟩ "p" "m", .select ⟨0⟩ "p" "n"]

theorem deliver_performAll_reselected :
    ¬ (Session.new .rule { name := "R" }).Current reselected ⟨⟨0⟩, "p", "m", 1⟩ ∧
      (Session.new .rule { name := "R" }).Current reselected ⟨⟨0⟩, "p", "n", 2⟩ := by
  obtain ⟨-, hfirst, -⟩ := deliver_performAll (.opened (.new .rule { name := "R" })) reselected
    ⟨⟨0⟩, "p", "m", 1⟩ (.ok [])
  obtain ⟨-, hsecond, -⟩ := deliver_performAll (.opened (.new .rule { name := "R" })) reselected
    ⟨⟨0⟩, "p", "n", 2⟩ (.ok [])
  exact ⟨fun h => absurd (hfirst.2 h) (by decide +kernel), hsecond.1 (by decide +kernel)⟩

end Session

end Blockscript
