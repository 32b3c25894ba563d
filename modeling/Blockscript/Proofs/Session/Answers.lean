import Blockscript.Proofs.Session.Tickets

/-!
# Answers in any order

Answers may overtake each other. One answer changes at most the editor that waits for it, and no
selection (`CallEditor.hear`, `selection_hear`), so that answers to different tickets come to the
same in every order: each editor has received the answer to its active selection, if there was one
among them, and nothing else has changed (`deliverAll_perm`).
-/

namespace Blockscript

/-- An answer under way: the ticket it is to, and the inputs or why there are none. -/
structure Answer where
  ticket : Selection
  result : Except SchemaError (List InputField)

/-! ## One editor -/

namespace CallEditor

/-- The editor of a block once an answer was delivered, which it may not wait for. -/
def hear (e : CallEditor) (id : BlockId) (args : List CallArg) (a : Answer) : CallEditor :=
  if a.ticket.block = id ∧ e.selection = some a.ticket then e.receive a.result args else e

/-- The editor once it received the answer to its active selection, if that is among those. -/
def settle (e : CallEditor) (args : List CallArg) (answers : List Answer) : CallEditor :=
  match answers.find? (e.selection = some ·.ticket) with
  | none => e
  | some a => e.receive a.result args

variable {e : CallEditor} {id : BlockId} {args : List CallArg} {a b : Answer}

theorem selection_receive (e : CallEditor) (answer : Except SchemaError (List InputField))
    (args : List CallArg) : (e.receive answer args).selection = e.selection := by
  cases answer <;> rfl

theorem hear_of_ne (h : e.selection ≠ some a.ticket) : e.hear id args a = e :=
  if_neg fun hwaits => h hwaits.2

theorem selection_hear (e : CallEditor) (id : BlockId) (args : List CallArg) (a : Answer) :
    (e.hear id args a).selection = e.selection := by
  rw [hear]
  split
  · exact selection_receive e a.result args
  · rfl

/-- Of two answers to different tickets an editor waits for one at most. -/
theorem hear_comm (h : a.ticket ≠ b.ticket) :
    (e.hear id args a).hear id args b = (e.hear id args b).hear id args a := by
  by_cases ha : e.selection = some a.ticket
  · have hb : e.selection ≠ some b.ticket := fun hb => h (Option.some.inj (ha.symm.trans hb))
    rw [hear_of_ne hb, hear_of_ne (by rwa [selection_hear])]
  · rw [hear_of_ne ha, hear_of_ne (a := a) (by rwa [selection_hear])]

theorem foldl_hear_of_not_mem {answers : List Answer}
    (h : ∀ a ∈ answers, e.selection ≠ some a.ticket) : answers.foldl (hear · id args) e = e := by
  induction answers with
  | nil => rfl
  | cons a answers ih =>
    obtain ⟨ha, hanswers⟩ := List.forall_mem_cons.1 h
    rw [List.foldl_cons, hear_of_ne ha, ih hanswers]

/-- **One editor**, having heard all answers, has received the one that it waits for. -/
theorem foldl_hear {answers : List Answer} (hn : (answers.map (·.ticket)).Nodup)
    (hid : ∀ ticket, e.selection = some ticket → ticket.block = id) :
    answers.foldl (hear · id args) e = e.settle args answers := by
  induction answers with
  | nil => rfl
  | cons a answers ih =>
    obtain ⟨ha, hn⟩ := List.nodup_cons.1 hn
    rw [List.foldl_cons, settle]
    by_cases hwaits : e.selection = some a.ticket
    · have hothers : ∀ b ∈ answers, (e.receive a.result args).selection ≠ some b.ticket := by
        intro b hb hsame
        rw [selection_receive, hwaits] at hsame
        exact ha (List.mem_map.2 ⟨b, hb, (Option.some.inj hsame).symm⟩)
      have hfound : (a :: answers).find? (e.selection = some ·.ticket) = some a :=
        List.find?_cons_of_pos (decide_eq_true hwaits)
      rw [hfound, hear, if_pos ⟨hid a.ticket hwaits, hwaits⟩]
      exact foldl_hear_of_not_mem hothers
    · have hfound : (a :: answers).find? (e.selection = some ·.ticket) =
          answers.find? (e.selection = some ·.ticket) :=
        List.find?_cons_of_neg fun h => hwaits (of_decide_eq_true h)
      rw [hfound, hear_of_ne hwaits]
      exact ih hn

end CallEditor

/-! ## All editors -/

namespace CallEditors

/-- The editors, each of them changed. -/
def mapEditors (c : CallEditors) (change : BlockId → CallEditor → CallEditor) : CallEditors :=
  { c with editor? := fun id => (c.editor? id).map (change id) }

theorem eq_mapEditors {c d : CallEditors} {change : BlockId → CallEditor → CallEditor}
    (hlatest : d.latest = c.latest) (h : ∀ id, d.editor? id = (c.editor? id).map (change id)) :
    d = c.mapEditors change := by
  obtain ⟨editor?, latest⟩ := d
  obtain rfl : latest = c.latest := hlatest
  exact congrArg (CallEditors.mk · c.latest) (funext h)

theorem mapEditors_self (c : CallEditors) : (c.mapEditors fun _ e => e) = c :=
  (eq_mapEditors rfl fun _ => Option.map_id'.symm).symm

theorem mapEditors_mapEditors (c : CallEditors) (f g : BlockId → CallEditor → CallEditor) :
    (c.mapEditors f).mapEditors g = c.mapEditors fun id e => g id (f id e) :=
  eq_mapEditors rfl fun _ => Option.map_map _ _ _

end CallEditors

namespace Session

/-- The session after answers that were delivered one after the other. -/
def deliverAll (s : Session) (answers : List Answer) : Session :=
  answers.foldl (fun s a => (s.deliver a.ticket a.result).2) s

/-- The session in which each editor has received the answer to its active selection, if that is
among those, and nothing else has changed. -/
def settle (s : Session) (answers : List Answer) : Session :=
  { s with calls := s.calls.mapEditors fun id e => e.settle (s.argsOf id) answers }

/-- The editors after an answer: each of them has heard it. -/
theorem editor?_deliver (s : Session) (a : Answer) (id : BlockId) :
    (s.deliver a.ticket a.result).2.calls.editor? id =
      (s.calls.editor? id).map fun e => e.hear id (s.argsOf id) a := by
  rcases s.deliver_cases a.ticket a.result with ⟨hstale, ht⟩ | ⟨e, he, hwaits, ht⟩ <;> rw [ht]
  · rcases he : s.calls.editor? id with _ | e
    · rfl
    · have hdeaf : ¬ (a.ticket.block = id ∧ e.selection = some a.ticket) := fun hwaits =>
        hstale e (hwaits.1 ▸ he) hwaits.2
      exact congrArg some (if_neg hdeaf).symm
  · by_cases hid : id = a.ticket.block
    · subst hid
      rw [he]
      exact (CallEditors.editor?_put_self _ _ _).trans (congrArg some (if_pos ⟨rfl, hwaits⟩).symm)
    · have hdeaf : ∀ e : CallEditor, e.hear id (s.argsOf id) a = e := fun e =>
        if_neg fun hwaits => hid hwaits.1.symm
      simp only [hdeaf, Option.map_id']
      exact CallEditors.editor?_put_of_ne _ _ hid

/-- **An answer** is heard by every editor and changes nothing else. -/
theorem deliver_eq (s : Session) (a : Answer) : (s.deliver a.ticket a.result).2 =
    { s with calls := s.calls.mapEditors fun id e => e.hear id (s.argsOf id) a } := by
  rw [← CallEditors.eq_mapEditors (d := (s.deliver a.ticket a.result).2.calls) _
    (s.editor?_deliver a)]
  · rfl
  · rcases s.deliver_cases a.ticket a.result with ⟨-, ht⟩ | ⟨e, -, -, ht⟩
    · rw [ht]
    · rw [ht]
      rfl

/-- Answers one after the other are heard by every editor one after the other. -/
theorem deliverAll_eq (s : Session) (answers : List Answer) : s.deliverAll answers =
    { s with calls := s.calls.mapEditors fun id e =>
        answers.foldl (CallEditor.hear · id (s.argsOf id)) e } := by
  induction answers generalizing s with
  | nil =>
    show s = { s with calls := s.calls.mapEditors fun _ e => e }
    rw [CallEditors.mapEditors_self]
  | cons a answers ih =>
    have hstep : s.deliverAll (a :: answers) =
        (s.deliver a.ticket a.result).2.deliverAll answers := rfl
    rw [hstep, ih, deliver_eq]
    dsimp only
    rw [CallEditors.mapEditors_mapEditors]
    rfl

/-- What an editor waits for is a ticket of its block that is current. -/
theorem selection_iff_current (start : Start) (ops : List Op) {id : BlockId} {e : CallEditor}
    (he : (start.session.performAll ops).calls.editor? id = some e) (ticket : Selection) :
    e.selection = some ticket ↔ ticket.block = id ∧ start.session.Current ops ticket := by
  have hactive : (start.session.performAll ops).calls.selection? id = e.selection := by
    rw [CallEditors.selection?, he, Option.bind_some]
  constructor
  · intro hsel
    obtain ⟨c, -, hagree⟩ := ((consistent_start start).performAll ops) id e he
    obtain ⟨hid, -⟩ := hagree.selection ticket hsel
    exact ⟨hid, (selection?_performAll_iff start ops ticket).1 (by rw [hid, hactive, hsel])⟩
  · rintro ⟨rfl, hcurrent⟩
    rw [← hactive]
    exact (selection?_performAll_iff start ops ticket).2 hcurrent

/-- **Answers in any order.** The tickets of a session are different ones. Whatever was done to it,
answers to different tickets come to the same in every order in which they are delivered: each
editor has received the answer to its active selection, if there was one, and nothing else in the
session has changed. The active selection is the ticket of the block that is current. -/
theorem deliverAll_perm (start : Start) (ops : List Op) {answers order : List Answer}
    (horder : order.Perm answers) (hn : (answers.map (·.ticket)).Nodup) :
    (start.session.tickets ops).Nodup ∧
      (start.session.performAll ops).deliverAll order =
        (start.session.performAll ops).settle answers ∧
      ∀ id e, (start.session.performAll ops).calls.editor? id = some e → ∀ ticket,
        e.selection = some ticket ↔ ticket.block = id ∧ start.session.Current ops ticket := by
  have hcurrent : ∀ id e, (start.session.performAll ops).calls.editor? id = some e → ∀ ticket,
      e.selection = some ticket ↔ ticket.block = id ∧ start.session.Current ops ticket :=
    fun _ _ he => selection_iff_current start ops he
  refine ⟨nodup_tickets _ ops, ?_, hcurrent⟩
  rw [deliverAll_eq, settle]
  refine congrArg (fun calls => { start.session.performAll ops with calls }) ?_
  refine CallEditors.eq_mapEditors rfl fun id => Option.map_congr fun e he => ?_
  have hblock : ∀ ticket, e.selection = some ticket → ticket.block = id := fun ticket hsel =>
    ((hcurrent id e he ticket).1 hsel).1
  show order.foldl (CallEditor.hear · id _) e = e.settle _ answers
  rw [← CallEditor.foldl_hear hn hblock]
  -- Two answers of the list are to different tickets or the same one.
  refine horder.foldl_eq' (fun a ha b hb e => ?_) e
  by_cases hab : a.ticket = b.ticket
  · rw [List.inj_on_of_nodup_map hn (horder.subset ha) (horder.subset hb) hab]
  · exact CallEditor.hear_comm hab

/-- Two calls; another method is selected for the first one while answers are under way. -/
def threeSelected : List Op :=
  [.add .top (.call ⟨"p", "m", [⟨"x", "1"⟩]⟩), .add .top (.call ⟨"q", "k", []⟩),
    .select ⟨0⟩ "p" "m", .select ⟨1⟩ "q" "k", .select ⟨0⟩ "p" "n"]

/-- The answers to the three tickets, in the order of the tickets. -/
def threeAnswers : List Answer :=
  [⟨⟨⟨0⟩, "p", "m", 1⟩, .ok [⟨"x", "Int"⟩]⟩, ⟨⟨⟨1⟩, "q", "k", 2⟩, .ok [⟨"y", "Int"⟩]⟩,
    ⟨⟨⟨0⟩, "p", "n", 3⟩, .error (.unavailable "offline")⟩]

theorem deliverAll_perm_threeAnswers :
    threeAnswers.reverse.Perm threeAnswers ∧ (threeAnswers.map (·.ticket)).Nodup ∧
      ((Session.new .rule { name := "R" }).performAll threeSelected).deliverAll
          threeAnswers.reverse =
        ((Session.new .rule { name := "R" }).performAll threeSelected).settle threeAnswers ∧
      ((((Session.new .rule { name := "R" }).performAll threeSelected).settle
        threeAnswers).calls.editor? ⟨0⟩).map (·.editor) = some (.freeText "x: 1") := by
  have horder : threeAnswers.reverse.Perm threeAnswers := List.reverse_perm _
  have hn : (threeAnswers.map (·.ticket)).Nodup := by decide
  obtain ⟨-, hsettled, -⟩ :=
    deliverAll_perm (.opened (.new .rule { name := "R" })) threeSelected horder hn
  exact ⟨horder, hn, hsettled, by decide +kernel⟩

end Session

end Blockscript
