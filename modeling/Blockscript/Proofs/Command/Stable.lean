import Blockscript.Proofs.Script.RoundTrip
import Blockscript.Command.Run

/-!
# Checks are stable

The text of a session that was opened is a document read and written once, so that reading and
writing it again changes nothing (`isStable_openSession`). The error for a text that is not stable
is therefore never reported, whatever a host answers (`formatted_stable`).
-/

namespace Blockscript

/-! ## Errors -/

theorem head?_toList_append {s : String} {c : Char} (h : s.toList.head? = some c) (t : String) :
    (s ++ t).toList.head? = some c := by
  rw [String.toList_append, List.head?_append, h, Option.some_or]

theorem CommandError.head?_message {e : CommandError} (h : e ≠ .unstable) :
    e.message.toList.head? = some 'F' := by
  cases e with
  | unstable => exact absurd rfl h
  | parseHeader => decide
  | _ => exact head?_toList_append (head?_toList_append (head?_toList_append (by decide) _) _) _

theorem CommandError.message_ne_unstable {e : CommandError} (h : e ≠ .unstable) :
    e.message ≠ CommandError.unstable.message := by
  intro he
  have hhead := head?_message h
  rw [he] at hhead
  exact absurd hhead (by decide)

theorem Report.failed_ne_unstable {e : CommandError} (h : e ≠ .unstable) (out out' : String) :
    Report.failed out e ≠ Report.failed out' .unstable := by
  intro hr
  have herr := congrArg (·.err.toList) hr
  simp only [Report.failed, String.toList_append, List.append_cancel_right_eq,
    List.append_cancel_left_eq, String.toList_inj] at herr
  exact CommandError.message_ne_unstable h herr

theorem Report.done_ne_failed (out out' : String) (e : CommandError) :
    Report.done out ≠ Report.failed out' e :=
  fun h => absurd (congrArg Report.code h) (by decide : (0 : UInt32) ≠ 1)

namespace Command

open Script

/-! ## Opened documents -/

theorem text_openSession (mode : Option Mode) (header : Option Header) (text : String) :
    (openSession mode header text).text = formatted (openSession mode header text).mode
      (openSession mode header text).header .initial text := rfl

theorem isStable_openSession (mode : Option Mode) (header : Option Header) (text : String) :
    isStable (openSession mode header text) = true := by
  rw [isStable, beq_iff_eq, text_openSession]
  exact formatted_formatted _ _ _ _ _

/-! ## Hosts -/

variable {σ : Type}

/-- What follows from every answer that the first step may give holds of the answer of both. -/
theorem fst_run_bind {α β : Type} {P : α → Prop} {Q : β → Prop} {x : StateM σ α}
    {f : α → StateM σ β} {d : σ} (hx : P (x.run d).1) (hf : ∀ a d', P a → Q ((f a).run d').1) :
    Q ((x >>= f).run d).1 := hf _ _ hx

/-- Whether loading may answer this: a session opened on some text, or an error other than the one
on stability. -/
def Loaded : Except CommandError Session → Prop
  | .error e => e ≠ .unstable
  | .ok s => ∃ mode header text, s = openSession mode header text

variable (host : Host (StateM σ)) (c : Command)

theorem loaded_load (d : σ) : Loaded ((load host c).run d).1 := by
  unfold load
  refine fst_run_bind (P := fun _ => True) trivial fun r d _ => ?_
  rcases r with why | text
  · exact fun h => nomatch h
  · dsimp only
    rcases c.header with _ | path
    · exact ⟨c.mode, none, text, rfl⟩
    · refine fst_run_bind (P := fun _ => True) trivial fun r d _ => ?_
      rcases r with why | json
      · exact fun h => nomatch h
      · dsimp only
        rcases parseHeader? json with _ | header
        · exact fun h => nomatch h
        · exact ⟨c.mode, some header, text, rfl⟩

/-- Whether a command may report this: its error, if any, is not the one on stability. -/
def Reported (r : Report) : Prop := ∀ out, r ≠ .failed out .unstable

theorem reported_done (out : String) : Reported (.done out) :=
  fun out' => Report.done_ne_failed out out' .unstable

theorem reported_failed {e : CommandError} (h : e ≠ .unstable) : Reported (.failed "" e) :=
  Report.failed_ne_unstable h ""

theorem reported_run (d : σ) : Reported ((run host c).run d).1 := by
  unfold run
  refine fst_run_bind (loaded_load host c d) fun r d hload => ?_
  rcases r with e | s
  · exact reported_failed hload
  · obtain ⟨mode, header, text, rfl⟩ := hload
    dsimp only
    rcases c.task with _ | _ | _
    · dsimp only
      rcases c.output with _ | path
      · exact reported_done _
      · refine fst_run_bind (P := fun _ => True) trivial fun r d _ => ?_
        rcases r with _ | why
        · exact reported_done _
        · exact reported_failed fun h => nomatch h
    · exact reported_done _
    · refine fst_run_bind (P := fun _ => True) trivial fun elapsed d _ => ?_
      have hstable := isStable_openSession mode header text
      show Reported (checkReport (openSession mode header text) elapsed)
      rw [checkReport, if_pos hstable]
      exact reported_done _

/-- **Formatting any text** is stable after one pass: the text that was read and written once reads
without a skipped line and is written the same again, and no command on any host reports a text that
is not stable. -/
theorem formatted_stable (mode : Mode) (header : Header) (ids ids' : IdSupply) (text : String)
    (d : σ) (out : String) :
    (parse mode ids' (formatted mode header ids text)).1.skipped = [] ∧
      write mode header (parse mode ids' (formatted mode header ids text)).1.statements
          (parse mode ids' (formatted mode header ids text)).1.preconditions =
        formatted mode header ids text ∧
      ((run host c).run d).1 ≠ .failed out .unstable :=
  ⟨skipped_formatted mode header ids ids' text, formatted_formatted mode header ids ids' text,
    reported_run host c d out⟩

end Command

end Blockscript
