import Blockscript.Proofs.Session.Tickets

/-!
# Tickets of a session that was restored

A snapshot keeps no call editors, and a restored session numbers its selections from one again. A
ticket of the session that was saved is therefore issued once more where the restored session makes
the same selection after as many others, and from then on an answer to the old ticket is used as one
to the new ticket would be. In all other cases it comes too late (`deliver_restored`).
-/

namespace Blockscript.Session

/-- Whether operations made the selection of a ticket right after `i` others, and none of the later
ones outdated it. -/
def SelectedAfter (s : Session) (ops : List Op) (i : ℕ) (ticket : Selection) : Prop :=
  ∃ before c after, ops = before ++ .select ticket.block ticket.product ticket.method :: after ∧
    (s.tickets before).length = i ∧ (s.performAll before).call? ticket.block = some c ∧
    ∀ mid later rest, after = mid ++ later :: rest →
      ¬ (s.performAll (before ++
          .select ticket.block ticket.product ticket.method :: mid)).Outdates ticket.block later

variable {s : Session} {ops : List Op} {i : ℕ} {ticket : Selection}

/-! ## Numbers -/

/-- Selections are numbered from one. -/
theorem latest_start (start : Start) : start.session.calls.latest = 0 := by
  cases start with
  | restored n => rfl
  | opened opening =>
    cases opening with
    | new mode header => rfl
    | build mode header listeners source => cases source <;> rfl
    | definition d => rfl

theorem latest_performAll (s : Session) (ops : List Op) :
    (s.performAll ops).calls.latest = s.calls.latest + (s.tickets ops).length := by
  induction ops generalizing s with
  | nil => rfl
  | cons e ops ih =>
    have hstep : s.performAll (e :: ops) = (s.perform e).performAll ops := rfl
    rw [hstep, ih, latest_perform, tickets, List.length_append, Nat.add_assoc]

theorem number_of_getElem?_tickets (h : (s.tickets ops)[i]? = some ticket) :
    ticket.number = s.calls.latest + 1 + i := by
  have hi : i < (s.tickets ops).length := (List.getElem?_eq_some_iff.1 h).1
  have hnumber : ((s.tickets ops).map (·.number))[i]? = some ticket.number := by
    rw [List.getElem?_map, h, Option.map_some]
  rw [map_number_tickets, List.getElem?_range' hi, Nat.one_mul] at hnumber
  exact (Option.some.inj hnumber).symm

/-- A ticket is current if its selection was made when its number was up. -/
theorem current_iff_selectedAfter (start : Start) (h : ticket.number = i + 1) :
    start.session.Current ops ticket ↔ start.session.SelectedAfter ops i ticket := by
  have hlatest : ∀ before, (start.session.performAll before).calls.latest =
      (start.session.tickets before).length := by
    intro before
    rw [latest_performAll, latest_start, Nat.zero_add]
  constructor
  · rintro ⟨before, e, after, rfl, hissued, hlater⟩
    obtain ⟨id, product, method, c, rfl, hc, rfl⟩ := issued?_eq_some_iff.1 hissued
    have hnumber := Nat.succ.inj h
    exact ⟨before, c, after, rfl, (hlatest before).symm.trans hnumber, hc, hlater⟩
  · rintro ⟨before, c, after, rfl, hlength, hc, hlater⟩
    have hticket : ticket = ⟨ticket.block, ticket.product, ticket.method,
        (start.session.performAll before).calls.latest + 1⟩ := by
      rw [hlatest, hlength, ← h]
    exact ⟨before, _, after, rfl, issued?_eq_some_iff.2 ⟨_, _, _, c, rfl, hc, hticket⟩, hlater⟩

/-! ## Answers -/

/-- An answer is used exactly if its ticket is the active selection of the block. -/
theorem applied_iff_selection? (s : Session) (ticket : Selection)
    (answer : Except SchemaError (List InputField)) :
    (s.deliver ticket answer).1 = .applied ↔ s.calls.selection? ticket.block = some ticket := by
  rcases s.deliver_cases ticket answer with ⟨hnot, ht⟩ | ⟨e, he, hsel, ht⟩ <;> rw [ht]
  · refine ⟨nofun, fun hsel => ?_⟩
    obtain ⟨e, he, hsel⟩ := Option.bind_eq_some_iff.1 hsel
    exact absurd hsel (hnot e he)
  · refine ⟨fun _ => ?_, fun _ => rfl⟩
    rw [CallEditors.selection?, he]
    exact hsel

/-- An answer that comes too late changes nothing. -/
theorem deliver_of_stale (s : Session) (ticket : Selection)
    (answer : Except SchemaError (List InputField)) (h : (s.deliver ticket answer).1 = .stale) :
    (s.deliver ticket answer).2 = s := by
  rcases s.deliver_cases ticket answer with ⟨-, ht⟩ | ⟨e, -, -, ht⟩ <;> rw [ht] at h ⊢
  cases h

/-- **Tickets from before a restore.** A session is restored from a snapshot and goes on. An answer
to the ticket that the saved session issued after `i` others, before or after the snapshot was
taken, is used exactly if the restored session made the same selection, it too after `i` others, and
has not outdated it since. Otherwise the answer is stale and changes nothing. -/
theorem deliver_restored (start : Start) (ops rest later : List Op)
    (h : (start.session.tickets (ops ++ rest))[i]? = some ticket)
    (answer : Except SchemaError (List InputField)) :
    ((((restore (start.session.performAll ops).snapshot).performAll later).deliver ticket
          answer).1 = .applied ↔
        (restore (start.session.performAll ops).snapshot).SelectedAfter later i ticket) ∧
      ((((restore (start.session.performAll ops).snapshot).performAll later).deliver ticket
          answer).1 = .stale →
        (((restore (start.session.performAll ops).snapshot).performAll later).deliver ticket
          answer).2 = (restore (start.session.performAll ops).snapshot).performAll later) := by
  have hnumber : ticket.number = i + 1 := by
    rw [number_of_getElem?_tickets h, latest_start, Nat.zero_add, Nat.add_comm]
  have hactive := selection?_performAll_iff (.restored (start.session.performAll ops).snapshot)
    later ticket
  rw [current_iff_selectedAfter _ hnumber] at hactive
  exact ⟨(applied_iff_selection? _ ticket answer).trans hactive, deliver_of_stale _ ticket answer⟩

/-- A call for which a method is selected. -/
def selected : List Op := [.add .top (.call ⟨"p", "m", []⟩), .select ⟨0⟩ "p" "m"]

/-- The selection made once more after a restore: the answer to the old ticket is used. -/
theorem applied_restored_selected :
    (Session.new .rule { name := "R" }).tickets selected = [⟨⟨0⟩, "p", "m", 1⟩] ∧
      (((restore ((Session.new .rule { name := "R" }).performAll selected).snapshot).performAll
          [.select ⟨0⟩ "p" "m"]).deliver ⟨⟨0⟩, "p", "m", 1⟩ (.ok [⟨"a", "Int"⟩])).1 = .applied := by
  decide +kernel

theorem selectedAfter_restored_selected :
    (restore ((Session.new .rule { name := "R" }).performAll selected).snapshot).SelectedAfter
        [.select ⟨0⟩ "p" "m"] 0 ⟨⟨0⟩, "p", "m", 1⟩ ∧
      ¬ (restore ((Session.new .rule { name := "R" }).performAll selected).snapshot).SelectedAfter
        [.select ⟨0⟩ "p" "n"] 0 ⟨⟨0⟩, "p", "m", 1⟩ := by
  have hissued : ((Start.opened (.new .rule { name := "R" })).session.tickets
      (selected ++ []))[0]? = some ⟨⟨0⟩, "p", "m", 1⟩ := by
    decide +kernel
  obtain ⟨hsame, -⟩ := deliver_restored (.opened (.new .rule { name := "R" })) selected []
    [.select ⟨0⟩ "p" "m"] hissued (.ok [])
  obtain ⟨hother, -⟩ := deliver_restored (.opened (.new .rule { name := "R" })) selected []
    [.select ⟨0⟩ "p" "n"] hissued (.ok [])
  exact ⟨hsame.1 (by decide +kernel), fun h => absurd (hother.2 h) (by decide +kernel)⟩

end Blockscript.Session
