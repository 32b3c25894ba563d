import Blockscript.Proofs.Forest.WellFormed
import Blockscript.Proofs.Script.Renumbered

/-!
# Forests of the same structure

Two forests are of the same structure if their nested forms become equal once the identifiers are
taken away, and the text written from forests depends on nothing else: `sameStructure_exact`. In
which order a forest keeps its nodes, and which identifiers they have, is seen by neither.
-/

namespace Blockscript

/-- Where a forest comes from, and the edits since. -/
structure Provenance where
  origin : Origin
  edits : List Edit
  deriving Repr

namespace Provenance

/-- The forest that comes of it. -/
def forest (a : Provenance) : Forest := a.origin.forest.editAll a.edits

theorem represents (a : Provenance) : a.forest.Represents a.forest.outline :=
  (a.origin.built.editAll a.edits).represents

/-- Forests are of the same structure if their nested forms differ in identifiers only. -/
theorem sameStructure_iff (a b : Provenance) : a.forest.sameStructure b.forest = true ↔
    a.forest.outline.anonymous = b.forest.outline.anonymous :=
  a.represents.sameStructure_iff b.represents

theorem equivalence_sameStructure :
    Equivalence fun a b : Provenance => a.forest.sameStructure b.forest = true where
  refl a := (a.sameStructure_iff a).2 rfl
  symm {a b} h := (b.sameStructure_iff a).2 ((a.sameStructure_iff b).1 h).symm
  trans {a b c} h h' := (a.sameStructure_iff c).2
    (((a.sameStructure_iff b).1 h).trans ((b.sameStructure_iff c).1 h'))

/-- **Structure and text.** Comparing the structure of any two forests, wherever they come from and
whatever the edits, compares their nested forms without the identifiers, which is an equivalence;
and forests of the same structure are written as the same text, in either mode and under any
header. -/
theorem sameStructure_exact :
    (∀ a b : Provenance, a.forest.sameStructure b.forest = true ↔
      a.forest.outline.anonymous = b.forest.outline.anonymous) ∧
    Equivalence (fun a b : Provenance => a.forest.sameStructure b.forest = true) ∧
    ∀ (mode : Mode) (header : Header) (S S' P P' : Provenance),
      S.forest.sameStructure S'.forest = true → P.forest.sameStructure P'.forest = true →
        Script.write mode header S.forest P.forest =
          Script.write mode header S'.forest P'.forest := by
  refine ⟨sameStructure_iff, equivalence_sameStructure, ?_⟩
  intro mode header S S' P P' hS hP
  exact (Script.write_eq_of_sameStructure S.represents S'.represents P.represents P'.represents
    hS hP mode header).symm

/-- A loop with an assignment below it, and the same made from its end under other identifiers. -/
example :
    let a : Provenance := ⟨.empty .statements, [.add .top ⟨⟨0⟩, .forEach "i" "Order" none⟩,
      .add .top ⟨⟨1⟩, .set "a" "1"⟩, .add (.under ⟨0⟩) ⟨⟨2⟩, .set "b" "2"⟩]⟩
    let b : Provenance := ⟨.empty .statements, [.add .top ⟨⟨7⟩, .set "a" "1"⟩,
      .add .top ⟨⟨5⟩, .forEach "i" "Order" none⟩, .reorder ⟨5⟩ ⟨7⟩,
      .add (.under ⟨5⟩) ⟨⟨6⟩, .set "b" "2"⟩]⟩
    a.forest ≠ b.forest ∧ a.forest.sameStructure b.forest = true := by
  decide +kernel

end Provenance

end Blockscript
