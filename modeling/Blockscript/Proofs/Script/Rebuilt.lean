import Blockscript.Proofs.Forest.Numbered
import Blockscript.Proofs.Script.Said
import Blockscript.Script.Parser

/-!
# Documents rebuilt from their lines

`Progress.take?` is a step of the reading on a line that counts. The lines that a written body says
all count (`foldlM_said`, `foldlM_preconditions`), and what they build is the forest of the outline
they were written from, in normal form and numbered in the order of the lines: `parse_of_said`.
-/

namespace Blockscript

open Text

/-- The outline that reading rebuilds: in normal form, with the identifiers from `n` on. -/
def Outline.rebuilt (n : ℕ) (o : Outline) : Outline := (o.mapKind BlockKind.normal).numbered n

namespace Outline

theorem rebuilt_cons (n : ℕ) (b : Block) (below next : Outline) :
    (cons b below next).rebuilt n =
      .cons ⟨⟨n⟩, b.kind.normal⟩ (below.rebuilt (n + 1)) (next.rebuilt (n + 1 + below.size)) := by
  rw [rebuilt, mapKind, numbered, size_mapKind]
  rfl

@[simp] theorem size_rebuilt (n : ℕ) (o : Outline) : (o.rebuilt n).size = o.size := by
  rw [rebuilt, size_numbered, size_mapKind]

theorem kinds_rebuilt (n : ℕ) (o : Outline) :
    (o.rebuilt n).kinds = o.kinds.map BlockKind.normal := by
  rw [rebuilt, kinds_numbered, kinds_mapKind]

theorem represents_rebuilt {role : ForestRole} {o : Outline} (h : o.Fits role) (n : ℕ) :
    (Forest.ofOutline role (o.rebuilt n)).Represents (o.rebuilt n) :=
  Forest.represents_numbered (fits_mapKind BlockKind.tag_normal h) n

end Outline

namespace Script.Progress

/-! ## Lines that count -/

/-- The progress after a line that counts; none for a line that is skipped. -/
def take? (mode : Mode) (p : Progress) (said : Line) : Option Progress :=
  let q := { p with awaiting := none }
  match mode, said with
  | .action, .precondition label conditions => some (q.addPrecondition label conditions)
  | .action, .failure message => p.awaiting.map fun id => q.setMessage id message
  | .action, .effect => some { q with inEffect := true }
  | _, .close => some { q with loops := q.loops.tail }
  | _, .statement kind => if q.acceptsStatements mode then some (q.addStatement kind) else none
  | mode, said => if said.isHeader mode then some q else none

/-- A step takes the line, or else notes it as skipped. -/
theorem step_eq (mode : Mode) (p : Progress) (line : SourceLine) :
    step mode p line =
      (p.take? mode (Line.read line.text)).getD ({ p with awaiting := none }.skip line) := by
  unfold step take?
  generalize Line.read line.text = said
  cases said with
  | statement kind => cases mode <;> dsimp only <;> split <;> rfl
  | failure message => cases mode <;> cases p.awaiting <;> rfl
  | _ => cases mode <;> rfl

theorem foldlM_cons_of {mode : Mode} {p q : Progress} {said : Line} (h : p.take? mode said = some q)
    (rest : List Line) : (said :: rest).foldlM (take? mode) p = rest.foldlM (take? mode) q := by
  rw [List.foldlM_cons, h, Option.bind_eq_bind, Option.bind_some]

theorem foldlM_append_of {mode : Mode} {p q : Progress} {said : List Line}
    (h : said.foldlM (take? mode) p = some q) (rest : List Line) :
    (said ++ rest).foldlM (take? mode) p = rest.foldlM (take? mode) q := by
  rw [List.foldlM_append, h, Option.bind_eq_bind, Option.bind_some]

/-- Lines that all count are read one after the other. -/
theorem foldl_step {mode : Mode} {lines : List SourceLine} {p q : Progress}
    (h : (lines.map (Line.read ·.text)).foldlM (take? mode) p = some q) :
    lines.foldl (step mode) p = q := by
  induction lines generalizing p with
  | nil => exact Option.some.inj h
  | cons line lines ih =>
    rw [List.map_cons, List.foldlM_cons] at h
    obtain ⟨r, hr, hrest⟩ := Option.bind_eq_some_iff.1 h
    rw [List.foldl_cons, step_eq, hr]
    exact ih hrest

/-! ## Statements -/

/-- Whether the statements read so far can go on: identifiers are still fresh, and the open loops
are there. -/
structure Ready (p : Progress) : Prop where
  role : p.statements.role = .statements
  fresh : ∀ id : BlockId, p.ids.next ≤ id.val → p.statements.get? id = none
  loops : ∀ id ∈ p.loops, ∃ b, p.statements.get? id = some b ∧ b.isContainer = true

/-- A progress with more statements at its place and their identifiers handed out. -/
def withStatements (p : Progress) (o : Outline) : Progress :=
  { p with
    ids := ⟨p.ids.next + o.size⟩
    statements := p.statements.attach p.place o
    awaiting := none }

theorem Ready.admits {p : Progress} (h : p.Ready) {tag : BlockTag} (htag : tag ≠ .precondition) :
    p.statements.admits tag p.place = true := by
  have htakes : p.statements.role.takes tag = true := by
    rw [h.role]
    exact bne_iff_ne.2 htag
  rcases hl : p.loops with _ | ⟨id, ids⟩
  · rw [place, hl, Forest.admits_top, htakes]
  · rw [place, hl]
    obtain ⟨b, hb, hc⟩ := h.loops id (hl ▸ List.mem_cons_self)
    exact Forest.admits_under_iff.2 ⟨h.role, htakes, b, hb, hc⟩

/-- A statement that is read is added. -/
theorem Ready.exists_add? {p : Progress} (h : p.Ready) {kind : BlockKind}
    (htag : kind.tag ≠ .precondition) :
    ∃ g, p.statements.add? p.place ⟨p.ids.fresh, kind⟩ = some g :=
  ⟨_, Forest.add?_eq_some_iff.2
    ⟨Forest.get?_eq_none_iff.1 (h.fresh _ (Nat.le_refl _)), h.admits htag, rfl⟩⟩

theorem Ready.addStatement {p : Progress} (h : p.Ready) {kind : BlockKind}
    (htag : kind.tag ≠ .precondition) : (p.addStatement kind).Ready := by
  obtain ⟨g, hg⟩ := h.exists_add? htag
  have hget := Forest.get?_of_add? hg
  have hstatements : (p.addStatement kind).statements = g := by
    rw [Progress.addStatement, hg]
    rfl
  have hold : ∀ id ∈ p.loops, ∃ b, g.get? id = some b ∧ b.isContainer = true := by
    intro id hid
    obtain ⟨b, hb, hc⟩ := h.loops id hid
    have hne : p.ids.fresh ≠ id := by
      intro he
      rw [← he, h.fresh _ (Nat.le_refl _)] at hb
      cases hb
    exact ⟨b, by rw [hget, if_neg hne, hb], hc⟩
  refine ⟨?_, fun id hid => ?_, fun id hid => ?_⟩
  · rw [hstatements, Forest.role_of_add? hg, h.role]
  · have hle : p.ids.next + 1 ≤ id.val := hid
    have hne : p.ids.fresh ≠ id := fun he => absurd (congrArg BlockId.val he) (Nat.ne_of_lt hle)
    rw [hstatements, hget, if_neg hne, h.fresh id (by omega)]
  · rw [hstatements]
    by_cases hc : kind.isContainer = true
    · have hloops : (p.addStatement kind).loops = p.ids.fresh :: p.loops := if_pos hc
      rw [hloops] at hid
      rcases List.mem_cons.1 hid with rfl | hid
      · exact ⟨⟨p.ids.fresh, kind⟩, by rw [hget, if_pos rfl], hc⟩
      · exact hold id hid
    · have hloops : (p.addStatement kind).loops = p.loops := if_neg hc
      exact hold id (hloops ▸ hid)

/-- The innermost loop ended. -/
def closeLoop (p : Progress) : Progress := { p with loops := p.loops.tail }

theorem Ready.closeLoop {p : Progress} (h : p.Ready) : p.closeLoop.Ready :=
  ⟨h.role, h.fresh, fun id hid => h.loops id (List.mem_of_mem_tail hid)⟩

theorem awaiting_none_eq {p : Progress} (h : p.awaiting = none) :
    { p with awaiting := none } = p := by rw [← h]

theorem take?_statement {mode : Mode} {p : Progress} (ha : p.acceptsStatements mode = true)
    (hw : p.awaiting = none) (kind : BlockKind) :
    p.take? mode (.statement kind) = some (p.addStatement kind) := by
  unfold take?
  rw [awaiting_none_eq hw]
  cases mode <;> exact if_pos ha

theorem take?_close {p : Progress} (hw : p.awaiting = none) (mode : Mode) :
    p.take? mode .close = some p.closeLoop := by
  unfold take?
  rw [awaiting_none_eq hw]
  cases mode <;> rfl

section Step

variable {p : Progress} {kind : BlockKind} (hp : p.Ready) (htag : kind.tag ≠ .precondition)

include hp htag

theorem addStatement_eq (hw : p.awaiting = none) (hc : kind.isContainer = false) :
    p.addStatement kind = p.withStatements (.leaf ⟨p.ids.fresh, kind⟩) := by
  obtain ⟨g, hg⟩ := hp.exists_add? htag
  rw [addStatement, withStatements, Outline.leaf, Forest.attach, hg, hc, ← hw]
  rfl

theorem closeLoop_addStatement_eq (hc : kind.isContainer = true) (below : Outline) :
    ((p.addStatement kind).withStatements below).closeLoop =
      p.withStatements (.cons ⟨p.ids.fresh, kind⟩ below .nil) := by
  obtain ⟨g, hg⟩ := hp.exists_add? htag
  have hnext : p.ids.next + 1 + below.size =
      p.ids.next + (Outline.cons ⟨p.ids.fresh, kind⟩ below .nil).size := by
    rw [Outline.size, Outline.size]
    omega
  have hadd : p.addStatement kind = { p with
      ids := p.ids.advance
      statements := g
      loops := p.ids.fresh :: p.loops } := by
    rw [addStatement, hg, hc]
    rfl
  rw [hadd, withStatements, withStatements, Forest.attach, hg, closeLoop, ← hnext]
  rfl

end Step

theorem next_withStatements (p : Progress) (o : Outline) :
    (p.withStatements o).ids.next = p.ids.next + o.size := rfl

theorem withStatements_withStatements (p : Progress) (o o' : Outline) :
    (p.withStatements o).withStatements o' = p.withStatements (o.append o') := by
  rw [withStatements, withStatements, withStatements, Forest.attach_append, Outline.size_append,
    ← Nat.add_assoc]
  rfl

/-- **The lines of statements** build the outline they were written from, in normal form and with
identifiers in document order, at the place of the next statement. -/
theorem foldlM_said (mode : Mode) {o : Outline} (hfits : o.Fits .statements) {p : Progress}
    (hp : p.Ready) (ha : p.acceptsStatements mode = true) (hw : p.awaiting = none) :
    o.said.foldlM (take? mode) p = some (p.withStatements (o.rebuilt p.ids.next)) ∧
      (p.withStatements (o.rebuilt p.ids.next)).Ready := by
  induction o generalizing p with
  | nil =>
    have hself : p.withStatements .nil = p := by
      rw [withStatements, ← hw]
      rfl
    exact ⟨congrArg some hself.symm, hself.symm ▸ hp⟩
  | cons b below next ihBelow ihNext =>
    obtain ⟨⟨htakes, hbelow⟩, hfitsBelow, hfitsNext⟩ := hfits
    have htag : b.kind.normal.tag ≠ .precondition := by
      rw [BlockKind.tag_normal]
      exact bne_iff_ne.1 htakes
    have htake := take?_statement ha hw b.kind.normal
    have hready := hp.addStatement htag
    rw [Outline.said, if_neg (bne_iff_ne.1 htakes), Outline.rebuilt_cons]
    by_cases hc : b.isContainer = true
    · have hc' : b.kind.normal.isContainer = true := by rwa [BlockKind.isContainer_normal]
      have hfold : below.said.foldlM (take? mode) (p.addStatement b.kind.normal) =
          some ((p.addStatement b.kind.normal).withStatements (below.rebuilt (p.ids.next + 1))) :=
        (ihBelow hfitsBelow hready ha hw).1
      have hclosed : ((p.addStatement b.kind.normal).withStatements
          (below.rebuilt (p.ids.next + 1))).closeLoop.Ready :=
        (ihBelow hfitsBelow hready ha hw).2.closeLoop
      have hsize : p.ids.next + (1 + below.size + 0) = p.ids.next + 1 + below.size := by omega
      have hloop := closeLoop_addStatement_eq hp htag hc' (below.rebuilt (p.ids.next + 1))
      rw [hloop] at hclosed
      have hrest := ihNext hfitsNext hclosed ha rfl
      rw [withStatements_withStatements, next_withStatements, Outline.size, Outline.size_rebuilt,
        Outline.size, hsize] at hrest
      rw [if_pos hc, foldlM_cons_of htake, foldlM_append_of hfold,
        foldlM_cons_of (take?_close rfl mode), hloop]
      exact hrest
    · have hnil : below = .nil := by
        by_contra hne
        exact hc (hbelow hne)
      have hc' : b.kind.normal.isContainer = false := by
        rw [BlockKind.isContainer_normal]
        exact eq_false_of_ne_true hc
      have hleaf := addStatement_eq hp htag hw hc'
      rw [hleaf] at htake hready
      have hrest := ihNext hfitsNext hready ha rfl
      rw [withStatements_withStatements, next_withStatements] at hrest
      rw [if_neg hc, foldlM_cons_of htake, hnil]
      exact hrest

/-! ## Preconditions -/

/-- A progress with more preconditions and their identifiers handed out. -/
def withPreconditions (p : Progress) (o : Outline) (awaiting : Option BlockId) : Progress :=
  { p with
    ids := ⟨p.ids.next + o.size⟩
    preconditions := p.preconditions.attach .top o
    awaiting }

/-- Whether preconditions can be added: all identifiers from the next one on are fresh. -/
structure Open (p : Progress) : Prop where
  role : p.preconditions.role = .preconditions
  fresh : ∀ id : BlockId, p.ids.next ≤ id.val → p.preconditions.get? id = none

theorem Open.exists_add? {p : Progress} (h : p.Open) (kind : BlockKind)
    (htag : kind.tag = .precondition) :
    ∃ g, p.preconditions.add? .top ⟨p.ids.fresh, kind⟩ = some g := by
  refine ⟨_, Forest.add?_eq_some_iff.2
    ⟨Forest.get?_eq_none_iff.1 (h.fresh _ (Nat.le_refl _)), ?_, rfl⟩⟩
  rw [Forest.admits_top, h.role]
  exact beq_iff_eq.2 htag

theorem Open.withPreconditions {p : Progress} (h : p.Open) (kind : BlockKind)
    (awaiting : Option BlockId) :
    (p.withPreconditions (.leaf ⟨p.ids.fresh, kind⟩) awaiting).Open := by
  refine ⟨(Forest.role_attach _ _ _).trans h.role, fun id hid => ?_⟩
  have hle : p.ids.next + 1 ≤ id.val := hid
  have hne : id ∉ (Outline.leaf ⟨p.ids.fresh, kind⟩).ids := by
    intro hm
    rw [List.mem_singleton.1 hm] at hle
    exact absurd hle (Nat.not_succ_le_self p.ids.next)
  exact (Forest.get?_attach hne).trans (h.fresh id (by omega))

theorem withPreconditions_withPreconditions (p : Progress) (o o' : Outline)
    (w w' : Option BlockId) :
    (p.withPreconditions o w).withPreconditions o' w' = p.withPreconditions (o.append o') w' := by
  rw [withPreconditions, withPreconditions, withPreconditions, Forest.attach_append,
    Outline.size_append, ← Nat.add_assoc]

/-- A message is a change of the precondition on the line before. -/
theorem update?_message (label conditions : String) {s : List Char} (hs : Tight s) (hne : s ≠ []) :
    (BlockKind.precondition label conditions none).update? .onFailure
        (.text (String.ofList s)) =
      some (.precondition label conditions (some (String.ofList s))) := by
  have hblank : unlessBlank (String.ofList s) = some (String.ofList s) := by
    rw [unlessBlank, String.toList_ofList, hs.trim_eq, if_neg hne]
  simp only [BlockKind.update?, hblank]
  rfl

/-- **The lines of a precondition** build its normal form. -/
theorem foldlM_precondition {p : Progress} (hp : p.Open) {kind : BlockKind}
    (htag : kind.tag = .precondition) :
    ∃ w, kind.said.foldlM (take? .action) p =
      some (p.withPreconditions (.leaf ⟨p.ids.fresh, kind.normal⟩) w) := by
  cases kind with
  | precondition label conditions message =>
    have htag' := BlockKind.tag_normal (.precondition label conditions message)
    rw [BlockKind.said, failureSaid]
    rw [BlockKind.normal] at htag' ⊢
    generalize String.ofList (Clean.name "check" label) = label
    generalize String.ofList (Clean.line "true" conditions) = conditions
    obtain ⟨g, hg⟩ := hp.exists_add? (.precondition label conditions none) rfl
    have htake : p.take? .action (.precondition label conditions) =
        some (p.withPreconditions (.leaf ⟨p.ids.fresh, .precondition label conditions none⟩)
          (some p.ids.fresh)) := by
      rw [withPreconditions, Forest.attach_leaf hg, take?, addPrecondition]
      dsimp only
      rw [hg]
      rfl
    by_cases h : oneLine ((message.getD "").toList) = []
    · rw [Clean.optional_eq_none h, foldlM_cons_of htake]
      exact ⟨_, rfl⟩
    · have hk := update?_message label conditions (inline_oneLine _).toTight h
      rw [Clean.optional_eq_some h]
      generalize String.ofList (oneLine ((message.getD "").toList)) = s at hk
      obtain ⟨g', hg'⟩ := hp.exists_add? (.precondition label conditions (some s)) rfl
      have hupdate := (Forest.update?_of_add? hg hk).trans hg'
      have hmessage : (p.withPreconditions
            (.leaf ⟨p.ids.fresh, .precondition label conditions none⟩)
            (some p.ids.fresh)).take? .action (.failure s) =
          some (p.withPreconditions
            (.leaf ⟨p.ids.fresh, .precondition label conditions (some s)⟩) none) := by
        rw [withPreconditions, withPreconditions, Forest.attach_leaf hg, Forest.attach_leaf hg',
          take?, Option.map_some, setMessage]
        dsimp only
        rw [hupdate]
        rfl
      rw [foldlM_cons_of htake, foldlM_cons_of hmessage]
      exact ⟨none, rfl⟩
  | _ => cases htag

/-- **The lines of preconditions** build the outline they were written from, in normal form. -/
theorem foldlM_preconditions {o : Outline} (hfits : o.Fits .preconditions) (depth : ℕ)
    {p : Progress} (hp : p.Open) :
    ∃ w, (((o.walk depth).map (·.2)).flatMap (·.kind.said)).foldlM (take? .action) p =
      some (p.withPreconditions (o.rebuilt p.ids.next) w) := by
  induction o generalizing p with
  | nil => exact ⟨p.awaiting, rfl⟩
  | cons b below next _ ihNext =>
    obtain ⟨⟨htakes, hbelow⟩, -, hfitsNext⟩ := hfits
    have htag : b.kind.tag = .precondition := beq_iff_eq.1 htakes
    have hnil : below = .nil := by
      by_contra hne
      have hfor := hbelow hne
      rw [Block.isContainer, BlockKind.isContainer, htag] at hfor
      cases hfor
    obtain ⟨w, hw⟩ := foldlM_precondition hp htag
    obtain ⟨w', hw'⟩ := ihNext hfitsNext (hp.withPreconditions b.kind.normal w)
    refine ⟨w', ?_⟩
    rw [withPreconditions_withPreconditions] at hw'
    rw [hnil, Outline.walk, Outline.walk, List.nil_append, List.map_cons, List.flatMap_cons,
      foldlM_append_of hw, hw', Outline.rebuilt_cons]
    rfl

/-! ## Documents -/

/-- A reading that has seen no block yet goes on with any statement. -/
theorem ready_of_empty {p : Progress} (hs : p.statements = .empty .statements)
    (hl : p.loops = []) : p.Ready := by
  refine ⟨by rw [hs]; rfl, fun id _ => by rw [hs]; rfl, fun id hid => ?_⟩
  rw [hl] at hid
  exact absurd hid List.not_mem_nil

/-- The `EFFECT` line read. -/
def beginEffect (p : Progress) : Progress := { p with inEffect := true, awaiting := none }

theorem take?_effect (p : Progress) : p.take? .action .effect = some p.beginEffect := rfl

theorem foldlM_header (mode : Mode) (h : Header) (ids : IdSupply) :
    (h.said mode).foldlM (take? mode) { ids } = some { ids } := by
  cases mode with
  | rule => rfl
  | action =>
    rw [Header.said, foldlM_cons_of (q := { ids }) rfl, descriptionSaid]
    split <;> rfl

end Script.Progress

namespace Script

open Progress

/-- What reading rebuilds from outlines, with the identifiers from `n` on. -/
def rebuilt (mode : Mode) (n : ℕ) (statements preconditions : Outline) : Script :=
  match mode with
  | .rule => ⟨.ofOutline .statements (statements.rebuilt n), .empty .preconditions, []⟩
  | .action =>
    ⟨.ofOutline .statements (statements.rebuilt (n + preconditions.size)),
      .ofOutline .preconditions (preconditions.rebuilt n), []⟩

theorem built_rebuilt (mode : Mode) (n : ℕ) (o q : Outline) :
    Forest.Built .statements (rebuilt mode n o q).statements ∧
      Forest.Built .preconditions (rebuilt mode n o q).preconditions := by
  cases mode with
  | rule => exact ⟨.ofOutline _, .empty⟩
  | action => exact ⟨.ofOutline _, .ofOutline _⟩

theorem exists_represents_statements {o : Outline} (h : o.Fits .statements) (mode : Mode) (n : ℕ)
    (q : Outline) : ∃ m, (rebuilt mode n o q).statements.Represents (o.rebuilt m) := by
  cases mode <;> exact ⟨_, Outline.represents_rebuilt h _⟩

theorem represents_preconditions {q : Outline} (h : q.Fits .preconditions) (n : ℕ) (o : Outline) :
    (rebuilt .action n o q).preconditions.Represents (q.rebuilt n) :=
  Outline.represents_rebuilt h n

theorem parse_of_foldlM {mode : Mode} {ids : IdSupply} {text : String} {said : List Line}
    {q : Progress} (htext : (sourceLines text).map (Line.read ·.text) = said)
    (h : said.foldlM (take? mode) { ids } = some q) :
    parse mode ids text = (⟨q.statements, q.preconditions, q.skipped⟩, q.ids) := by
  rw [← htext] at h
  rw [parse, progress, foldl_step h]

/-- **Reading what was written.** A text whose lines say what a written document says is read as the
document in normal form. -/
theorem parse_of_said {mode : Mode} {h : Header} {S P : Forest} (hS : Forest.Built .statements S)
    (hP : Forest.Built .preconditions P) {text : String}
    (htext : (sourceLines text).map (Line.read ·.text) = said mode h S P) (ids : IdSupply) :
    (parse mode ids text).1 = rebuilt mode ids.next S.outline P.outline := by
  have hfits := hS.fits
  have hfits' := hP.fits
  have hheader := foldlM_header mode h ids
  cases mode with
  | rule =>
    have hready : Progress.Ready { ids } := ready_of_empty rfl rfl
    have hbody := (foldlM_said .rule hfits hready rfl rfl).1
    have hfold : (said .rule h S P).foldlM (take? .rule) { ids } =
        some (withStatements { ids } (S.outline.rebuilt ids.next)).closeLoop := by
      rw [said, bodySaid, foldlM_append_of hheader, foldlM_append_of hbody,
        foldlM_cons_of (take?_close rfl .rule)]
      rfl
    rw [parse_of_foldlM htext hfold]
    rfl
  | action =>
    obtain ⟨w, hpre⟩ := foldlM_preconditions hfits' 0 (p := { ids }) ⟨rfl, fun _ _ => rfl⟩
    generalize hp : withPreconditions { ids } (P.outline.rebuilt ids.next) w = p at hpre
    have hready : p.beginEffect.Ready := ready_of_empty (hp ▸ rfl) (hp ▸ rfl)
    have hbody := (foldlM_said .action hfits hready rfl rfl).1
    have hfold : (said .action h S P).foldlM (take? .action) { ids } =
        some (p.beginEffect.withStatements
          (S.outline.rebuilt p.beginEffect.ids.next)).closeLoop.closeLoop := by
      rw [said, bodySaid, foldlM_append_of hheader, hP.represents.walk_eq, foldlM_append_of hpre,
        foldlM_cons_of p.take?_effect, foldlM_append_of hbody,
        foldlM_cons_of (take?_close rfl .action), foldlM_cons_of (take?_close rfl .action)]
      rfl
    have hnext : p.beginEffect.ids.next = ids.next + P.outline.size := by
      rw [← Outline.size_rebuilt ids.next P.outline, ← hp]
      rfl
    rw [parse_of_foldlM htext hfold, hnext, ← hp]
    rfl

end Script

end Blockscript
