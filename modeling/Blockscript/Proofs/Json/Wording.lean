import Mathlib.Algebra.Group.Nat.Defs
import Mathlib.Data.List.Forall2
import Mathlib.Data.List.Perm.Basic
import Blockscript.Json.Decoder

/-!
# Wordings of records

An object can write one record in many words. A `Part` is a member of the record as it may be
written: its names, its values, and whether it may be left out. `Words` says that an object writes
given parts: each once by one of its names or left out, in any order, among added members that name
none of them.

`exists_memberValues`: whatever the wording, a record finds the values of its members. The rest
turns these values into what `required`, `orElse`, `nullable` and `list` read. `Words.split` takes
one part out of a wording.
-/

namespace Blockscript.Json

/-- A member of a record as an object may write it: the keys that name it, what its value may be,
and when it may be left out. -/
structure Part where
  names : List String
  allows : Json → Prop
  spare : Prop := False

/-- What a part allows for its value, none if it is left out. -/
def Part.Holds (p : Part) : Option Json → Prop
  | none => p.spare
  | some j => p.allows j

/-- The members that write parts, in the order of the parts. -/
inductive Part.Written : List Part → List (String × Json) → Prop where
  | nil : Part.Written [] []
  | written {p : Part} {key : String} {j : Json} {ps : List Part} {members : List (String × Json)} :
    key ∈ p.names → p.allows j → Part.Written ps members →
      Part.Written (p :: ps) ((key, j) :: members)
  | spared {p : Part} {ps : List Part} {members : List (String × Json)} :
    p.spare → Part.Written ps members → Part.Written (p :: ps) members

/-- **An object writes the parts of a record**, in any order and among added members, whose keys
name no part and whose values are such as `extra` allows. -/
def Words (extra : Json → Prop) (ps : List Part) (j : Json) : Prop :=
  ∃ members known added, j = .obj members ∧ members.Perm (known ++ added) ∧ Part.Written ps known ∧
    ∀ kv ∈ added, extra kv.2 ∧ ∀ p ∈ ps, kv.1 ∉ p.names

/-- Any value at all. -/
def anything (_ : Json) : Prop := True

/-- The string alone. -/
def IsText (s : String) (j : Json) : Prop := j = .str s

/-- Null for none, else what stands for the value. -/
def IsNullable {α : Type} (is : α → Json → Prop) : Option α → Json → Prop
  | none, j => j = .null
  | some a, j => is a j

/-- An array of what stands for each item. -/
def IsList {α : Type} (is : α → Json → Prop) (as : List α) (j : Json) : Prop :=
  ∃ items, j = .arr items ∧ List.Forall₂ is as items

theorem isText_str (s : String) : IsText s (.str s) := rfl

theorem isNullable_ofOption {α : Type} {is : α → Json → Prop} {encode : α → Json}
    (h : ∀ a, is a (encode a)) (o : Option α) : IsNullable is o (ofOption encode o) := by
  cases o with
  | none => rfl
  | some a => exact h a

theorem isList_map {α : Type} {is : α → Json → Prop} {encode : α → Json}
    (h : ∀ a, is a (encode a)) (as : List α) : IsList is as (.arr (as.map encode)) :=
  ⟨_, rfl, List.forall₂_map_right_iff.2 (List.forall₂_same.2 fun a _ => h a)⟩

/-- Members that write the parts in their order are a wording. -/
theorem Part.Written.words {extra : Json → Prop} {ps : List Part} {members : List (String × Json)}
    (h : Part.Written ps members) : Words extra ps (.obj members) :=
  ⟨members, members, [], rfl, by simp, h, by simp⟩

/-- The members that one of the names picks. -/
def named (names : List String) (members : List (String × Json)) : List (String × Json) :=
  members.filter fun kv => kv.1 ∈ names

/-- No key is in two of the lists. -/
def Apart (names : List (List String)) : Prop :=
  names.Pairwise fun ns ns' => ∀ key ∈ ns, key ∉ ns'

instance (names : List (List String)) : Decidable (Apart names) :=
  inferInstanceAs (Decidable (names.Pairwise _))

theorem named_eq_nil {names : List String} {members : List (String × Json)}
    (h : ∀ kv ∈ members, kv.1 ∉ names) : named names members = [] :=
  List.filter_eq_nil_iff.2 fun kv hkv => by simpa using h kv hkv

/-! ## Finding the values -/

/-- The keys that name a member. -/
def Member.names (m : Member) : List String := m.name :: m.second.toList

theorem Member.isNamed_iff (m : Member) (key : String) : m.isNamed key = true ↔ key ∈ m.names := by
  obtain ⟨name, second, optional⟩ := m
  cases second <;> simp [Member.isNamed, Member.names]

/-- The value of a member is the one that its names pick. -/
theorem Member.find?_eq {m : Member} {members : List (String × Json)} {v : Option Json}
    (h : (named m.names members).map Prod.snd = v.toList) : m.find? members = some v := by
  have hfilter : members.filter (fun kv => m.isNamed kv.1) = named m.names members :=
    List.filter_congr fun kv _ => Bool.eq_iff_iff.2 (by simpa using m.isNamed_iff kv.1)
  rw [Member.find?, hfilter]
  cases v with
  | none =>
    rw [List.map_eq_nil_iff.1 h]
  | some j =>
    obtain ⟨kv, hkv, rfl⟩ := List.map_eq_singleton_iff.1 h
    rw [hkv]

/-- Every member that writes parts is named by one of them. -/
theorem Part.Written.exists_names {ps : List Part} {known : List (String × Json)}
    (h : Part.Written ps known) : ∀ kv ∈ known, ∃ p ∈ ps, kv.1 ∈ p.names := by
  induction h with
  | nil => simp
  | written hkey _ _ ih =>
    rintro kv (_ | ⟨_, hkv⟩)
    · exact ⟨_, List.mem_cons_self, hkey⟩
    · obtain ⟨p, hp, hname⟩ := ih kv hkv
      exact ⟨p, List.mem_cons_of_mem _ hp, hname⟩
  | spared _ _ ih =>
    intro kv hkv
    obtain ⟨p, hp, hname⟩ := ih kv hkv
    exact ⟨p, List.mem_cons_of_mem _ hp, hname⟩

/-- The names of a part that stands before others pick nothing of what these write. -/
theorem Part.Written.named_eq_nil {p : Part} {ps : List Part} {known : List (String × Json)}
    (h : Part.Written ps known) (hapart : Apart ((p :: ps).map Part.names)) :
    named p.names known = [] := by
  refine Json.named_eq_nil fun kv hkv hname => ?_
  obtain ⟨q, hq, hother⟩ := h.exists_names kv hkv
  exact (List.pairwise_cons.1 hapart).1 _ (List.mem_map_of_mem hq) _ hname hother

/-- The names of a part pick its value from the members that write the parts. -/
theorem Part.Written.exists_value {ps : List Part} {known : List (String × Json)}
    (h : Part.Written ps known) (hapart : Apart (ps.map Part.names)) :
    ∀ p ∈ ps, ∃ v, p.Holds v ∧ (named p.names known).map Prod.snd = v.toList := by
  induction h with
  | nil => simp
  | @written p key j ps known hkey hallows hknown ih =>
    have htail := (List.pairwise_cons.1 hapart)
    rintro q (_ | ⟨_, hq⟩)
    · refine ⟨some j, hallows, ?_⟩
      have hnone := hknown.named_eq_nil hapart
      rw [named, List.filter_cons_of_pos (by simpa using hkey)]
      exact congrArg (j :: List.map Prod.snd ·) hnone
    · obtain ⟨v, hv, hpick⟩ := ih htail.2 q hq
      have hother : key ∉ q.names := htail.1 _ (List.mem_map_of_mem hq) _ hkey
      refine ⟨v, hv, ?_⟩
      rwa [named, List.filter_cons_of_neg (by simpa using hother)]
  | @spared p ps known hspare hknown ih =>
    rintro q (_ | ⟨_, hq⟩)
    · exact ⟨none, hspare, by rw [hknown.named_eq_nil hapart]; rfl⟩
    · exact ih (List.pairwise_cons.1 hapart).2 q hq

/-- So they do among the members of any wording. -/
theorem Words.exists_value {extra : Json → Prop} {ps : List Part} {j : Json}
    (h : Words extra ps j) (hapart : Apart (ps.map Part.names)) :
    ∃ members, j = .obj members ∧
      ∀ p ∈ ps, ∃ v, p.Holds v ∧ (named p.names members).map Prod.snd = v.toList := by
  obtain ⟨members, known, added, rfl, hperm, hknown, hadded⟩ := h
  refine ⟨members, rfl, fun p hp => ?_⟩
  obtain ⟨v, hv, hpick⟩ := hknown.exists_value hapart p hp
  have hnone : named p.names added = [] := named_eq_nil fun kv hkv => (hadded kv hkv).2 p hp
  have hpicked : ((named p.names members).map Prod.snd).Perm v.toList := by
    have := (hperm.filter fun kv => decide (kv.1 ∈ p.names)).map Prod.snd
    rw [List.filter_append, List.map_append] at this
    change ((named p.names members).map Prod.snd).Perm
      ((named p.names known).map Prod.snd ++ (named p.names added).map Prod.snd) at this
    rwa [hnone, hpick, List.map_nil, List.append_nil] at this
  refine ⟨v, hv, ?_⟩
  cases v with
  | none => exact hpicked.eq_nil
  | some j => exact List.perm_singleton.1 hpicked

/-- **Whatever the wording, a record finds the values of its members.** -/
theorem exists_memberValues {extra : Json → Prop} {ms : List Member} {ps : List Part} {j : Json}
    (h : Words extra ps j) (hnames : ms.map Member.names = ps.map Part.names)
    (hapart : Apart (ms.map Member.names)) :
    ∃ values, memberValues ms j = some values ∧ List.Forall₂ Part.Holds ps values := by
  rw [hnames] at hapart
  obtain ⟨members, rfl, hvalue⟩ := h.exists_value hapart
  clear h hapart
  change ∃ values, ms.mapM (·.find? members) = some values ∧ _
  induction ps generalizing ms with
  | nil =>
    cases List.map_eq_nil_iff.1 hnames
    exact ⟨[], rfl, .nil⟩
  | cons p ps ih =>
    obtain ⟨m, ms, rfl, hname, hrest⟩ := List.map_eq_cons_iff.1 hnames
    obtain ⟨v, hv, hpick⟩ := hvalue p List.mem_cons_self
    obtain ⟨values, hvalues, hholds⟩ := ih hrest fun q hq => hvalue q (List.mem_cons_of_mem _ hq)
    rw [← hname] at hpick
    refine ⟨v :: values, ?_, .cons hv hholds⟩
    rw [List.mapM_cons, Member.find?_eq hpick, hvalues]
    rfl

/-- A part that stands first can be taken out of a wording. -/
theorem Words.split {extra : Json → Prop} {name : String} {allows : Json → Prop} {ps : List Part}
    {j : Json} (h : Words extra ({ names := [name], allows } :: ps) j)
    (hname : ∀ p ∈ ps, name ∉ p.names) :
    ∃ members j', j = .obj members ∧ allows j' ∧
      members.filter (fun kv => kv.1 == name) = [(name, j')] ∧
        Words extra ps (.obj (members.filter fun kv => kv.1 != name)) := by
  obtain ⟨members, known, added, rfl, hperm, hknown, hadded⟩ := h
  cases hknown with
  | spared hspare _ => exact hspare.elim
  | @written _ key j' _ known hkey hallows hknown =>
    obtain rfl := List.mem_singleton.1 hkey
    have hothers : ∀ kv ∈ known ++ added, kv.1 ≠ key := by
      intro kv hkv
      rcases List.mem_append.1 hkv with hkv | hkv
      · obtain ⟨p, hp, hnamed⟩ := hknown.exists_names kv hkv
        exact fun heq => hname p hp (heq ▸ hnamed)
      · simpa using (hadded kv hkv).2 _ List.mem_cons_self
    refine ⟨members, j', rfl, hallows, ?_, _, known, added, rfl, ?_, hknown, fun kv hkv =>
      ⟨(hadded kv hkv).1, fun p hp => (hadded kv hkv).2 p (List.mem_cons_of_mem _ hp)⟩⟩
    · have hfilter := hperm.filter fun kv => kv.1 == key
      have hnone : (known ++ added).filter (fun kv => kv.1 == key) = [] :=
        List.filter_eq_nil_iff.2 fun kv hkv => by simpa using hothers kv hkv
      rw [List.cons_append, List.filter_cons_of_pos (by simp), hnone] at hfilter
      exact List.perm_singleton.1 hfilter
    · have hfilter := hperm.filter fun kv => kv.1 != key
      have hall : (known ++ added).filter (fun kv => kv.1 != key) = known ++ added :=
        List.filter_eq_self.2 fun kv hkv => by simpa using hothers kv hkv
      rwa [List.cons_append, List.filter_cons_of_neg (by simp), hall] at hfilter

end Blockscript.Json

namespace Blockscript.Json.Decoder

variable {α : Type} {d : Decoder α} {levels : Nat} {a : α} {p : Part} {v : Option Json} {j : Json}

/-- A record reads any wording of parts from whose values it builds. -/
theorem record_of_words {extra : Json → Prop} {ms : List Member}
    {build : Nat → List (Option Json) → Option α} {ps : List Part} (h : Words extra ps j)
    (hnames : ms.map Member.names = ps.map Part.names) (hapart : Apart (ms.map Member.names))
    (hbuild : ∀ values, List.Forall₂ Part.Holds ps values → build levels values = some a) :
    record ms build (levels + 1) j = some a := by
  obtain ⟨values, hvalues, hholds⟩ := exists_memberValues h hnames hapart
  rw [record, hvalues, Option.bind_some, hbuild values hholds]

theorem required_of_holds (h : p.Holds v) (hspare : ¬p.spare)
    (hd : ∀ j, p.allows j → d levels j = some a) : required d levels v = some a := by
  cases v with
  | none => exact absurd h hspare
  | some j => exact hd j h

theorem orElse_of_holds {missing : α} (h : p.Holds v) (hspare : p.spare → missing = a)
    (hd : ∀ j, p.allows j → d levels j = some a) : orElse d missing levels v = some a := by
  cases v with
  | none => exact congrArg some (hspare h)
  | some j => exact hd j h

theorem string_of_isText {s : String} (h : IsText s j) : string levels j = some s := by
  rw [h, string]

theorem nullable_of_isNullable {is : α → Json → Prop} {o : Option α} (h : IsNullable is o j)
    (hd : ∀ a, o = some a → is a j → d levels j = some a ∧ j ≠ .null) :
    nullable d levels j = some o := by
  cases o with
  | none =>
    rw [show j = .null from h, nullable]
  | some a =>
    obtain ⟨hread, hnull⟩ := hd a rfl h
    rw [nullable, hread, Option.map_some]
    exact hnull

theorem nullable_of_isText {o : Option String} (h : IsNullable IsText o j) :
    nullable string levels j = some o :=
  nullable_of_isNullable h fun _ _ hs => ⟨string_of_isText hs, by rw [hs]; nofun⟩

theorem list_of_isList {is : α → Json → Prop} {as : List α} (h : IsList is as j)
    (hd : ∀ a ∈ as, ∀ j, is a j → d levels j = some a) : list d (levels + 1) j = some as := by
  obtain ⟨items, rfl, hitems⟩ := h
  rw [list]
  induction hitems with
  | nil => rfl
  | cons hfirst _ ih =>
    rw [List.mapM_cons, hd _ List.mem_cons_self _ hfirst,
      ih fun a ha => hd a (List.mem_cons_of_mem _ ha)]
    rfl

end Blockscript.Json.Decoder
