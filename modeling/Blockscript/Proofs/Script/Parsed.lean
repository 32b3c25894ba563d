import Blockscript.Proofs.Script.Stable
import Blockscript.Proofs.Script.Parameters

/-!
# Documents that were read

`Line.OfEveryShape` lists what a line can say at all. Whatever text is read, the forests are built
by edits (`built_parse`), and the arguments of every call are a list that was read, which keeps the
document settled (`settled_parse`). Both are kept by every line: `Progress.Sound` is the invariant.
The parameters of a header that was read can be read back (`readable_header?`).
-/

namespace Blockscript

/-- Whether the arguments of a call are a list that reading gives. -/
def BlockKind.Listed (kind : BlockKind) : Prop := ∀ c, kind = .call c → Arguments.WellFormed c.args

theorem BlockKind.Listed.settled {kind : BlockKind} (h : kind.Listed) : kind.Settled :=
  fun c hc => Arguments.value_ne_of_wellFormed (h c hc)

namespace Line

/-! ## What lines can say -/

theorem forall_mem_bind {α β : Type} {x : Option α} {f : α → Option β} {Q : β → Prop}
    (h : ∀ a, ∀ b ∈ f a, Q b) : ∀ b ∈ x.bind f, Q b := by
  intro b hb
  obtain ⟨a, -, ha⟩ := Option.bind_eq_some_iff.1 hb
  exact h a b ha

theorem forall_mem_some {β : Type} {b : β} {Q : β → Prop} (h : Q b) : ∀ c ∈ some b, Q c := by
  intro c hc
  rwa [← Option.some.inj hc]

theorem forall_mem_orElse {β : Type} {x y : Option β} {Q : β → Prop} (hx : ∀ b ∈ x, Q b)
    (hy : ∀ b ∈ y, Q b) : ∀ b ∈ (x <|> y), Q b := by
  cases x with
  | none => exact hy
  | some a => exact hx

theorem forall_mem_ite {β : Type} {c : Prop} [Decidable c] {b : β} {Q : β → Prop} (h : Q b) :
    ∀ d ∈ (if c then some b else none), Q d := by
  split
  · exact forall_mem_some h
  · exact fun d hd => nomatch hd

theorem getD_of_forall_mem {β : Type} {x : Option β} {d : β} {Q : β → Prop} (hx : ∀ b ∈ x, Q b)
    (hd : Q d) : Q (x.getD d) := by
  cases x with
  | none => exact hd
  | some b => exact hx b rfl

/-- Whether a property holds of everything that a line can say. -/
structure OfEveryShape (Q : Line → Prop) : Prop where
  set : ∀ target value, Q (.statement (.set target value))
  trigger : ∀ entity action target, Q (.statement (.trigger entity action target))
  forEach : ∀ binder entity conditions, Q (.statement (.forEach binder entity conditions))
  call : ∀ product method args, Q (.statement (.call ⟨product, method, Arguments.read args⟩))
  precondition : ∀ label conditions, Q (.precondition label conditions)
  failure : ∀ message, Q (.failure message)
  effect : Q .effect
  close : Q .close
  rule : ∀ name priority, Q (.ruleHeader name priority)
  on : ∀ trigger, Q (.triggerHeader trigger)
  action : ∀ entityType name, Q (.actionHeader entityType name [])
  parameters : ∀ entityType name text, Q (.actionHeader entityType name (readParameters text))
  description : ∀ text, Q (.descriptionHeader text)
  other : Q .other

namespace OfEveryShape

variable {Q : Line → Prop} (h : OfEveryShape Q) (s : List Char)

include h

theorem readSet : ∀ l ∈ readSet s, Q l := by
  unfold Line.readSet
  exact forall_mem_bind fun _ => forall_mem_bind fun _ => forall_mem_ite (h.set _ _)

theorem readTrigger : ∀ l ∈ readTrigger s, Q l := by
  unfold Line.readTrigger
  exact forall_mem_bind fun _ => forall_mem_bind fun _ => forall_mem_bind fun _ =>
    forall_mem_bind fun _ => forall_mem_bind fun _ => forall_mem_bind fun _ =>
    forall_mem_bind fun _ => forall_mem_bind fun _ => forall_mem_some (h.trigger _ _ _)

theorem readFor : ∀ l ∈ readFor s, Q l := by
  unfold Line.readFor
  exact forall_mem_bind fun _ => forall_mem_bind fun _ => forall_mem_bind fun _ =>
    forall_mem_bind fun _ => forall_mem_bind fun _ => forall_mem_bind fun _ =>
    forall_mem_some (h.forEach _ _ _)

theorem readCall : ∀ l ∈ readCall s, Q l := by
  unfold Line.readCall
  exact forall_mem_bind fun _ => forall_mem_bind fun _ => forall_mem_bind fun _ =>
    forall_mem_bind fun _ => forall_mem_bind fun args => forall_mem_some (h.call _ _ args)

theorem readEffect : ∀ l ∈ readEffect s, Q l := by
  unfold Line.readEffect
  exact forall_mem_bind fun _ => forall_mem_ite h.effect

theorem readPrecondition : ∀ l ∈ readPrecondition s, Q l := by
  unfold Line.readPrecondition
  exact forall_mem_bind fun _ => forall_mem_bind fun _ => forall_mem_bind fun _ =>
    forall_mem_bind fun _ => forall_mem_some (h.precondition _ _)

theorem readFailure : ∀ l ∈ readFailure s, Q l := by
  unfold Line.readFailure
  exact forall_mem_bind fun _ => forall_mem_bind fun _ => forall_mem_some (h.failure _)

theorem readRule : ∀ l ∈ readRule s, Q l := by
  unfold Line.readRule
  refine forall_mem_bind fun _ => forall_mem_bind fun _ => forall_mem_bind fun _ => ?_
  dsimp only
  split <;>
  · exact forall_mem_bind fun _ => forall_mem_bind fun _ => forall_mem_bind fun _ =>
      forall_mem_some (h.rule _ _)

theorem readOn : ∀ l ∈ readOn s, Q l := by
  unfold Line.readOn
  exact forall_mem_bind fun _ => forall_mem_bind fun _ => forall_mem_bind fun _ =>
    forall_mem_bind fun _ => forall_mem_ite (h.on _)

theorem readAction : ∀ l ∈ readAction s, Q l := by
  unfold Line.readAction
  refine forall_mem_bind fun _ => forall_mem_bind fun _ => forall_mem_bind fun _ =>
    forall_mem_bind fun _ => forall_mem_bind fun _ => ?_
  split
  · exact forall_mem_bind fun _ => forall_mem_some (h.action _ _)
  · exact forall_mem_bind fun _ => forall_mem_bind fun text =>
      forall_mem_some (h.parameters _ _ text)

theorem readDescription : ∀ l ∈ readDescription s, Q l := by
  unfold Line.readDescription
  exact forall_mem_bind fun _ => forall_mem_bind fun _ => forall_mem_some (h.description _)

/-- **Every line** says something of these shapes. -/
theorem read : Q (read s) := by
  unfold Line.read
  split
  · exact h.close
  · exact getD_of_forall_mem (forall_mem_orElse (h.readEffect s) <|
      forall_mem_orElse (h.readSet s) <| forall_mem_orElse (h.readTrigger s) <|
      forall_mem_orElse (h.readFor s) <| forall_mem_orElse (h.readCall s) <|
      forall_mem_orElse (h.readPrecondition s) <| forall_mem_orElse (h.readFailure s) <|
      forall_mem_orElse (h.readRule s) <| forall_mem_orElse (h.readOn s) <|
      forall_mem_orElse (h.readAction s) (h.readDescription s)) h.other

end OfEveryShape

/-! ## Lists on a line -/

/-- Whether what a line lists was read: the arguments of a call, the parameters of an action. -/
def Listed : Line → Prop
  | .statement kind => kind.Listed
  | .actionHeader _ _ parameters => ∀ p ∈ parameters, p.Readable
  | _ => True

theorem ofEveryShape_listed : OfEveryShape Listed where
  set _ _ _ hc := nomatch hc
  trigger _ _ _ _ hc := nomatch hc
  forEach _ _ _ _ hc := nomatch hc
  call product method args c hc := by
    rw [← BlockKind.call.inj hc]
    exact Arguments.wellFormed_read args
  precondition _ _ := trivial
  failure _ := trivial
  effect := trivial
  close := trivial
  rule _ _ := trivial
  on _ := trivial
  action _ _ _ hp := absurd hp List.not_mem_nil
  parameters _ _ text := Parameter.readable_readParameters text
  description _ := trivial
  other := trivial

/-- **Every line** lists what was read. -/
theorem listed_read (s : List Char) : (read s).Listed := ofEveryShape_listed.read s

/-- Whether a line is no statement of a precondition. -/
def Admissible : Line → Prop
  | .statement kind => kind.tag ≠ .precondition
  | _ => True

theorem ofEveryShape_admissible : OfEveryShape Admissible where
  set _ _ := BlockTag.noConfusion
  trigger _ _ _ := BlockTag.noConfusion
  forEach _ _ _ := BlockTag.noConfusion
  call _ _ _ := BlockTag.noConfusion
  precondition _ _ := trivial
  failure _ := trivial
  effect := trivial
  close := trivial
  rule _ _ := trivial
  on _ := trivial
  action _ _ := trivial
  parameters _ _ _ := trivial
  description _ := trivial
  other := trivial

/-- **No statement** that is read is a precondition: those have lines of their own. -/
theorem admissible_read (s : List Char) : (read s).Admissible := ofEveryShape_admissible.read s

end Line

namespace Script

/-! ## Readings -/

/-- What holds of the blocks that have been read, whatever the text: the forests were built by edits
and the calls list arguments that were read. -/
structure Progress.Sound (p : Progress) : Prop where
  statements : Forest.Built .statements p.statements
  preconditions : Forest.Built .preconditions p.preconditions
  listed : ∀ n ∈ p.statements.nodes, n.block.kind.Listed

namespace Progress

theorem sound_initial (ids : IdSupply) : Sound { ids } :=
  ⟨.empty, .empty, fun _ hn => absurd hn List.not_mem_nil⟩

theorem Sound.addStatement {p : Progress} (h : p.Sound) {kind : BlockKind} (hk : kind.Listed) :
    (p.addStatement kind).Sound := by
  refine ⟨h.statements.add?_getD _ _, h.preconditions, ?_⟩
  show ∀ n ∈ ((p.statements.add? p.place ⟨p.ids.fresh, kind⟩).getD p.statements).nodes, _
  rcases hg : p.statements.add? p.place ⟨p.ids.fresh, kind⟩ with _ | g
  · exact h.listed
  · obtain ⟨-, -, rfl⟩ := Forest.add?_eq_some_iff.1 hg
    rw [Option.getD_some, List.forall_mem_cons, Forest.nodes_withOrder, List.forall_mem_map]
    exact ⟨hk, fun n hn => by rw [Node.block_relisted]; exact h.listed n hn⟩

/-- **A step** keeps the reading sound. -/
theorem Sound.step {p : Progress} (h : p.Sound) (mode : Mode) (line : SourceLine) :
    (p.step mode line).Sound := by
  have hq : Sound { p with awaiting := none } := ⟨h.statements, h.preconditions, h.listed⟩
  have hl := Line.listed_read line.text
  unfold Progress.step
  generalize Line.read line.text = said at hl
  cases said with
  | statement kind =>
    cases mode <;>
    · dsimp only
      split
      · exact hq.addStatement hl
      · exact ⟨h.statements, h.preconditions, h.listed⟩
  | precondition label conditions =>
    cases mode with
    | rule => exact ⟨h.statements, h.preconditions, h.listed⟩
    | action => exact ⟨h.statements, h.preconditions.add?_getD _ _, h.listed⟩
  | failure message =>
    cases mode with
    | rule => exact ⟨h.statements, h.preconditions, h.listed⟩
    | action =>
      dsimp only
      split
      · exact ⟨h.statements, h.preconditions.update?_getD _ _ _, h.listed⟩
      · exact ⟨h.statements, h.preconditions, h.listed⟩
  | _ => cases mode <;> exact ⟨h.statements, h.preconditions, h.listed⟩

/-- **A reading** is sound. -/
theorem sound_progress (mode : Mode) (ids : IdSupply) (text : String) :
    (progress mode ids text).Sound := by
  unfold progress
  generalize sourceLines text = lines
  have h := sound_initial ids
  generalize ({ ids } : Progress) = p at h
  induction lines generalizing p with
  | nil => exact h
  | cons line lines ih => exact ih _ (h.step mode line)

end Progress

variable (mode : Mode) (ids : IdSupply) (text : String)

theorem built_parse : Forest.Built .statements (parse mode ids text).1.statements ∧
    Forest.Built .preconditions (parse mode ids text).1.preconditions :=
  have h := Progress.sound_progress mode ids text
  ⟨h.statements, h.preconditions⟩

/-- The calls of a document that was read are settled. -/
theorem settled_parse : ∀ e ∈ (parse mode ids text).1.statements.walk, e.2.kind.Settled := by
  have h := Progress.sound_progress mode ids text
  obtain ⟨o, ho⟩ := h.statements.exists_represents
  refine (ho.forall_walk_iff (Q := BlockKind.Settled)).2 fun kind hk => ?_
  rw [← o.map_kind_nodes .top] at hk
  obtain ⟨n, hn, rfl⟩ := List.mem_map.1 hk
  exact (h.listed n (ho.nodes.symm.subset hn)).settled

end Script

end Blockscript
