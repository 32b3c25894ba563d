/-!
# Text in double quotes

Inside a literal a backslash stands before every backslash and double quote. `unescape_escape`
says that reading gives back what was written; a backslash before any other character stands for
itself.
-/

namespace Blockscript.Text

/-- A backslash before every backslash and double quote. -/
def escape : List Char → List Char
  | [] => []
  | c :: s => if c = '\\' ∨ c = '"' then '\\' :: c :: escape s else c :: escape s

/-- The text that an escaped text stands for. -/
def unescape : List Char → List Char
  | '\\' :: '\\' :: s => '\\' :: unescape s
  | '\\' :: '"' :: s => '"' :: unescape s
  | c :: s => c :: unescape s
  | [] => []

theorem unescape_escape (s : List Char) : unescape (escape s) = s := by
  induction s with
  | nil => simp [escape, unescape]
  | cons c s ih =>
    by_cases hb : c = '\\'
    · simp [escape, unescape, hb, ih]
    · by_cases hq : c = '"'
      · simp [escape, unescape, hq, ih]
      · simp [escape, unescape, hb, hq, ih]

/-- Escaping adds backslashes only. -/
theorem forall_mem_escape {p : Char → Prop} (hp : p '\\') {s : List Char} (h : ∀ c ∈ s, p c) :
    ∀ c ∈ escape s, p c := by
  induction s with
  | nil => exact fun c hc => absurd hc List.not_mem_nil
  | cons d s ih =>
    obtain ⟨hd, hs⟩ := List.forall_mem_cons.1 h
    rw [escape]
    split
    · exact List.forall_mem_cons.2 ⟨hp, List.forall_mem_cons.2 ⟨hd, ih hs⟩⟩
    · exact List.forall_mem_cons.2 ⟨hd, ih hs⟩

end Blockscript.Text
