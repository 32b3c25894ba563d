import Blockscript.Proofs.Script.HeaderRead
import Blockscript.Proofs.Command.Stable
import Blockscript.Proofs.Files.Directory

/-!
# Formatting twice

A document that was formatted is formatted as it stands (`run_format_format`): its mode shows in the
first line (`detectMode_write`), its header is read as it was written, and the body is stable. The
line break after the last line says nothing.
-/

namespace Blockscript

open Text Line

namespace Script

/-! ## The mode of a written document -/

theorem detectMode_write (mode : Mode) (h : Header) (statements preconditions : Forest) :
    detectMode (write mode h statements preconditions) = mode := by
  obtain ⟨s, ls, hlines⟩ := exists_sourceLines_write mode h statements preconditions
  rw [detectMode, hlines]
  cases mode <;> rfl

/-! ## The last line break -/

variable (mode : Mode) (ids : IdSupply) (text : String)

theorem parse_append_newline : parse mode ids (text ++ "\n") = parse mode ids text := by
  rw [parse, progress, sourceLines_append_newline]
  rfl

theorem header?_append_newline : header? mode (text ++ "\n") = header? mode text := by
  unfold header?
  rw [sourceLines_append_newline]

theorem detectMode_append_newline : detectMode (text ++ "\n") = detectMode text := by
  rw [detectMode, sourceLines_append_newline]
  rfl

end Script

namespace Command

open Script

/-! ## Opening what was formatted -/

variable (mode : Option Mode) (text : String)

/-- The mode of the session on a document. -/
def modeOf : Mode := mode.getD (detectMode text)

/-- The header of the session on a document. -/
def headerOf : Header := (header? (modeOf mode text) text).getD .blank

/-- The text of the session on a document. -/
def formattedText : String := formatted (modeOf mode text) (headerOf mode text) .initial text

theorem text_openSession_none : (openSession mode none text).text = formattedText mode text := rfl

theorem skipped_openSession : (openSession mode none text).skipped =
    (parse (modeOf mode text) .initial text).1.skipped := rfl

/-! ## Formatting what was formatted -/

theorem detectMode_formattedText :
    detectMode (formattedText mode text ++ "\n") = modeOf mode text := by
  rw [detectMode_append_newline, formattedText, formatted, detectMode_write]

theorem modeOf_formattedText :
    modeOf mode (formattedText mode text ++ "\n") = modeOf mode text := by
  cases mode with
  | none => rw [modeOf, Option.getD_none, detectMode_formattedText]
  | some mode => rw [modeOf, modeOf, Option.getD_some, Option.getD_some]

theorem header?_formattedText : header? (modeOf mode text) (formattedText mode text) =
    some ((headerOf mode text).written (modeOf mode text)) :=
  header?_write _ (readable_header?_getD (modeOf mode text) text) _ _

theorem headerOf_formattedText : headerOf mode (formattedText mode text ++ "\n") =
    (headerOf mode text).written (modeOf mode text) := by
  rw [headerOf, modeOf_formattedText, header?_append_newline, header?_formattedText,
    Option.getD_some]

theorem formattedText_formattedText :
    formattedText mode (formattedText mode text ++ "\n") = formattedText mode text := by
  rw [formattedText, modeOf_formattedText, headerOf_formattedText, formatted, parse_append_newline,
    write_written]
  exact formatted_formatted _ _ _ _ _

theorem skipped_formattedText :
    (openSession mode none (formattedText mode text ++ "\n")).skipped = [] := by
  rw [skipped_openSession, modeOf_formattedText, parse_append_newline]
  exact skipped_formatted _ _ _ _ _

/-! ## Running on a directory -/

variable {d : Directory String} {path : String}

theorem run_load_of_read (task : Task) (output : Option String) {text : String}
    (h : d.read path = .ok text) :
    (load Host.directory { task, path, mode, output }).run d =
      (.ok (openSession mode none text), d) := by
  have hread : (Host.directory.read path).run d = (.ok text, d) := by
    rw [← h]
    rfl
  rw [load, StateT.run_bind, hread]
  rfl

theorem run_format_of_read {text : String} (h : d.read path = .ok text) :
    (run Host.directory { task := .format, path, mode }).run d =
      (.done (formattedText mode text ++ "\n"), d) := by
  rw [run, StateT.run_bind, run_load_of_read mode .format none h, ← text_openSession_none]
  rfl

theorem run_write_of_write {content : String} {d' : Directory String}
    (h : d.write path content = .ok d') :
    (Host.directory.write path content).run d = (none, d') := by
  rw [Host.directory]
  simp only [StateT.run_bind, StateT.run_get, pure_bind, h, StateT.run_set]
  rfl

theorem run_format_output_of_read {text file : String} (h : d.read path = .ok text)
    {d' : Directory String} (hw : d.write file (formattedText mode text ++ "\n") = .ok d') :
    (run Host.directory { task := .format, path, mode, output := some file }).run d =
      (.done ("Formatted document written to '" ++ file ++ "'\n"), d') := by
  have hwrite := run_write_of_write hw
  rw [run, StateT.run_bind, run_load_of_read mode .format (some file) h]
  show StateT.run (Host.directory.write file (formattedText mode text ++ "\n") >>= _) d = _
  rw [StateT.run_bind, hwrite]
  rfl

/-- Whether formatting the document at a path gives a text, on standard output or in any file that
can be written. -/
def Formats (mode : Option Mode) (d : Directory String) (path text : String) : Prop :=
  (run Host.directory { task := .format, path, mode }).run d = (.done text, d) ∧
    ∀ file d', d.write file text = .ok d' →
      (run Host.directory { task := .format, path, mode, output := some file }).run d =
          (.done ("Formatted document written to '" ++ file ++ "'\n"), d') ∧
        d'.read file = .ok text

theorem formats_of_read {text : String} (h : d.read path = .ok text) :
    Formats mode d path (formattedText mode text ++ "\n") :=
  ⟨run_format_of_read mode h, fun _ _ hw =>
    ⟨run_format_output_of_read mode h hw, Directory.read_of_write hw⟩⟩

theorem run_check_of_read {text : String} (h : d.read path = .ok text) :
    (run Host.directory { task := .check, path, mode }).run d =
      (.done (skippedReport (openSession mode none text).skipped ++
        (summary (openSession mode none text) ++ "") ++ "Round trip:     stable\n"), d) := by
  have hreport : checkReport (openSession mode none text) none =
      .done (skippedReport (openSession mode none text).skipped ++
        (summary (openSession mode none text) ++ "") ++ "Round trip:     stable\n") := by
    rw [← String.append_assoc]
    exact if_pos (isStable_openSession mode none text)
  rw [run, StateT.run_bind, run_load_of_read mode .check none h, ← hreport]
  rfl

/-- **Formatting twice.** For every file, and every mode or none, the output of the formatter has
the mode of the document on its first line and a header that is written as the document's was;
formatting it with the same options gives the same output, and a check finds every line recognised
and the text stable. -/
theorem run_format_format {text : String} (h : d.read path = .ok text) :
    ∃ out : String, Formats mode d path (out ++ "\n") ∧
      detectMode (out ++ "\n") = (openSession mode none text).mode ∧
      (∃ again, header? (openSession mode none text).mode out = some again ∧
        ∀ statements preconditions,
          lines (openSession mode none text).mode again statements preconditions =
            lines (openSession mode none text).mode (openSession mode none text).header statements
              preconditions) ∧
      ∀ (d' : Directory String) (path' : String), d'.read path' = .ok (out ++ "\n") →
        Formats mode d' path' (out ++ "\n") ∧
          ∃ counts, (run Host.directory { task := .check, path := path', mode }).run d' =
            (.done ("All lines recognised.\n" ++ counts ++ "Round trip:     stable\n"), d') := by
  refine ⟨formattedText mode text, formats_of_read mode h, detectMode_formattedText mode text,
    ⟨_, header?_formattedText mode text, lines_written _ _⟩, fun d' path' h' => ⟨?_, ?_⟩⟩
  · have hformats := formats_of_read mode h'
    rwa [formattedText_formattedText] at hformats
  · have hcheck := run_check_of_read mode h'
    rw [skipped_formattedText] at hcheck
    exact ⟨_, hcheck⟩

/-- A rule with a brace in its name, a priority beyond 64 bits and a call that is not closed. -/
def untidy : String :=
  "RULE a \x7b PRIORITY 99999999999999999999 \x7b\r\nCALL p.m(x: [, y: \");\nON b"

theorem run_format_format_untidy :
    (Directory.ofFiles [("untidy", untidy)]).read "untidy" = .ok untidy ∧
      ∃ out d', Formats none (.ofFiles [("untidy", untidy)]) "untidy" (out ++ "\n") ∧
        (Directory.ofFiles [("untidy", untidy)]).write "tidy" (out ++ "\n") = .ok d' ∧
        Formats none d' "tidy" (out ++ "\n") := by
  have hread : (Directory.ofFiles [("untidy", untidy)]).read "untidy" = .ok untidy := by decide
  have hpath : (Directory.ofFiles [("untidy", untidy)]).followPath "tidy" =
      .ok (⟨.above 0, []⟩, some ['t', 'i', 'd', 'y']) := by decide
  obtain ⟨out, hout, -, -, hagain⟩ := run_format_format none hread
  obtain ⟨d', hwrite⟩ : ∃ d',
      (Directory.ofFiles [("untidy", untidy)]).write "tidy" (out ++ "\n") = .ok d' := by
    rw [Directory.write, hpath]
    exact ⟨_, (if_neg (by decide)).trans ((if_neg (by decide)).trans (if_neg (by decide)))⟩
  exact ⟨hread, out, d', hout, hwrite, (hagain _ _ (Directory.read_of_write hwrite)).1⟩

end Command

end Blockscript
