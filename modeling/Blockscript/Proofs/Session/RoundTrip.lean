import Blockscript.Proofs.Script.RoundTrip
import Blockscript.Proofs.Session.Frame

/-!
# Round trips of a session

The text of a session in step is what its blocks are written as, so that reading it and writing it
again gives the same text exactly if the statements are settled. An argument that settles without a
value does not come back: it is read as empty and written as the placeholder
(`write_parse_performAll_iff`).
-/

namespace Blockscript.Session

open Script

variable {mode : Mode} {header : Header} {s : Session}

theorem InStep.write_parse_eq_iff (h : InStep mode header s) (ids : IdSupply) :
    write mode header (parse mode ids s.text).1.statements (parse mode ids s.text).1.preconditions =
        s.text ↔
      ∀ e ∈ s.statements.walk, e.2.kind.Settled := by
  have hread := map_read_sourceLines mode header s.statements s.preconditions
  rw [← h.text_eq] at hread
  have hiff := Script.write_parse_eq_iff h.statements h.preconditions hread ids
  rwa [← h.text_eq] at hiff

/-- **One round trip.** After any operations that leave the header alone, the edits of the document
and the texts that are opened among them, reading the text of the session and writing what was read
gives the same text exactly if no argument of a call among the statements comes out without a
value. -/
theorem write_parse_performAll_iff (mode : Mode) (header : Header) (ops : List Op)
    (hops : ∀ e ∈ ops, e.keepsHeader = true) (ids : IdSupply) :
    write mode header
          (parse mode ids ((Session.new mode header).performAll ops).text).1.statements
          (parse mode ids ((Session.new mode header).performAll ops).text).1.preconditions =
        ((Session.new mode header).performAll ops).text ↔
      ∀ e ∈ ((Session.new mode header).performAll ops).statements.walk, ∀ c, e.2.kind = .call c →
        ∀ a ∈ Clean.args c.args, a.value ≠ "" :=
  ((inStep_new mode header).performAll_of_keepsHeader hops).write_parse_eq_iff ids

/-- A call in a loop, first with a comma in its argument and then with the comma in quotes. -/
def commaQuoted : List Op :=
  [.add .top (.forEach "o" "Order" none), .add (.under ⟨0⟩) (.call ⟨"p", "m", [⟨"a", ", x: 1"⟩]⟩),
    .update ⟨1⟩ .args (.args [⟨"a", "\", x: 1\""⟩])]

theorem settled_commaQuoted :
    (∀ e ∈ commaQuoted, e.keepsHeader = true) ∧
      ∀ e ∈ ((Session.new .rule { name := "R" }).performAll commaQuoted).statements.walk,
        ∀ c, e.2.kind = .call c → ∀ a ∈ Clean.args c.args, a.value ≠ "" :=
  ⟨by decide,
    (write_parse_performAll_iff .rule { name := "R" } commaQuoted (by decide) .initial).1
      (by decide +kernel)⟩

/-- A call whose argument has a comma in front. -/
def commaFirst : List Op := [.add .top (.call ⟨"p", "m", [⟨"a", ", x: 1"⟩]⟩)]

theorem write_parse_commaFirst :
    ((Session.new .rule { name := "R" }).performAll commaFirst).text =
        "RULE R PRIORITY 100 \x7b\n    ON UPDATE(Entity)\n\n    CALL p.m(a: , x: 1);\n\x7d" ∧
      write .rule { name := "R" }
          (parse .rule .initial
            ((Session.new .rule { name := "R" }).performAll commaFirst).text).1.statements
          (parse .rule .initial
            ((Session.new .rule { name := "R" }).performAll commaFirst).text).1.preconditions ≠
        ((Session.new .rule { name := "R" }).performAll commaFirst).text := by
  decide +kernel

end Blockscript.Session
