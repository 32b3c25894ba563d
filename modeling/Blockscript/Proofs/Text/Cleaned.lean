import Blockscript.Proofs.Text.Names
import Blockscript.Script.Clean

/-!
# Cleaned text

What the cleaning functions give is never empty and of their own kind, and text of that kind is
left as it is: names (`name_eq_self`), paths (`path_eq_self`) and lines (`line_eq_self`). So
cleaning once is enough (`name_name`, `path_path`, `line_line`, `product_productText`).
-/

namespace Blockscript

namespace Text

theorem flat_eq_iff {c d : Char} (h : d ≠ ' ' ∧ ¬IsBreak d) : flat c = d ↔ c = d := by
  unfold flat
  split
  · rename_i hc
    exact ⟨fun he => absurd he.symm h.1, fun he => absurd (he ▸ hc) h.2⟩
  · exact Iff.rfl

@[simp] theorem isName_flat (c : Char) : isName (flat c) = isName c := by
  unfold flat
  split
  · rename_i hc
    rw [isName_of_isBlank (isBlank_of_isBreak hc)]
    decide
  · rfl

theorem blanks_of_map_flat {b : List Char} (h : Blanks (b.map flat)) : Blanks b := by
  intro c hc
  rw [← isBlank_flat]
  exact h (flat c) (List.mem_map_of_mem hc)

theorem mem_oneLine_iff {s : List Char} {c : Char} (hc : isBlank c = false) :
    c ∈ oneLine s ↔ c ∈ s := by
  have hflat : ∀ d, flat d = c ↔ d = c := fun d => flat_eq_iff
    ⟨by rintro rfl; exact absurd hc (by decide), fun hb => by simp [isBlank_of_isBreak hb] at hc⟩
  rw [oneLine_eq, mem_trim_iff hc, List.mem_map]
  simp only [hflat, exists_eq_right]

theorem oneLine_eq_nil_iff {s : List Char} : oneLine s = [] ↔ Blanks s := by
  rw [oneLine_eq, trim_eq_nil_iff]
  exact ⟨blanks_of_map_flat, fun h => List.forall_mem_map.2 fun c hc => by
    rw [isBlank_flat, h c hc]⟩

end Text

namespace Clean

open Text

theorem orElse_ne_nil {placeholder : String} (h : placeholder.toList ≠ []) (s : List Char) :
    orElse placeholder s ≠ [] := by
  unfold orElse
  split
  · exact h
  · assumption

theorem orElse_of_ne_nil {s : List Char} (h : s ≠ []) (placeholder : String) :
    orElse placeholder s = s := if_neg h

/-- What holds of the placeholder and of the text holds of the text that stands. -/
theorem orElse_induction {P : List Char → Prop} {placeholder : String} {s : List Char}
    (hp : P placeholder.toList) (hs : P s) : P (orElse placeholder s) := by
  unfold orElse
  split
  · exact hp
  · exact hs

/-! ## Names and paths -/

theorem isWordOf_orElse_filter {p : Char → Bool} {placeholder : String}
    (h : IsWordOf p placeholder.toList) (s : List Char) :
    IsWordOf p (orElse placeholder (s.filter p)) where
  ne_nil := orElse_ne_nil h.ne_nil _
  all := orElse_induction (P := fun s => ∀ c ∈ s, p c = true) h.all fun _ hc =>
    (List.mem_filter.1 hc).2

theorem orElse_filter_eq_self {p : Char → Bool} {s : List Char} (h : IsWordOf p s)
    (placeholder : String) : orElse placeholder (s.filter p) = s := by
  rw [List.filter_eq_self.2 h.all, orElse_of_ne_nil h.ne_nil]

theorem isWordOf_name {placeholder : String} (h : IsWordOf isName placeholder.toList)
    (text : String) : IsWordOf isName (name placeholder text) := isWordOf_orElse_filter h _

theorem name_eq_self {text : String} (h : IsWordOf isName text.toList) (placeholder : String) :
    name placeholder text = text.toList := orElse_filter_eq_self h placeholder

theorem name_name {placeholder : String} (h : IsWordOf isName placeholder.toList) (text : String) :
    name placeholder (String.ofList (name placeholder text)) = name placeholder text := by
  have hw := isWordOf_name h text
  rw [name_eq_self (by rwa [String.toList_ofList]), String.toList_ofList]

theorem isWordOf_path {placeholder : String} (h : IsWordOf isPath placeholder.toList)
    (text : String) : IsWordOf isPath (path placeholder text) := isWordOf_orElse_filter h _

theorem path_eq_self {text : String} (h : IsWordOf isPath text.toList) (placeholder : String) :
    path placeholder text = text.toList := orElse_filter_eq_self h placeholder

theorem path_path {placeholder : String} (h : IsWordOf isPath placeholder.toList) (text : String) :
    path placeholder (String.ofList (path placeholder text)) = path placeholder text := by
  have hw := isWordOf_path h text
  rw [path_eq_self (by rwa [String.toList_ofList]), String.toList_ofList]

theorem isBlank_of_isPath {c : Char} (h : isPath c = true) : isBlank c = false := by
  simp only [isPath, Bool.or_eq_true, beq_iff_eq] at h
  rcases h with (((h | rfl) | rfl) | rfl) | rfl
  · exact isBlank_of_isName h
  all_goals decide

/-! ## Lines -/

theorem inline_line {placeholder : String} (h : Inline placeholder.toList) (text : String) :
    Inline (line placeholder text) := orElse_induction h (inline_oneLine _)

theorem line_ne_nil {placeholder : String} (h : placeholder.toList ≠ []) (text : String) :
    line placeholder text ≠ [] := orElse_ne_nil h _

/-- A line has the characters of its text, but for blanks. -/
theorem mem_line_iff {placeholder text : String} {c : Char} (hc : isBlank c = false)
    (hp : c ∉ placeholder.toList) : c ∈ line placeholder text ↔ c ∈ text.toList := by
  unfold line orElse
  split
  · rename_i h
    rw [← mem_oneLine_iff (s := text.toList) hc, h]
    exact iff_of_false hp List.not_mem_nil
  · exact mem_oneLine_iff hc

theorem line_eq_self {text : String} (h : Inline text.toList) (hne : text.toList ≠ [])
    (placeholder : String) : line placeholder text = text.toList := by
  rw [line, h.oneLine_eq, orElse_of_ne_nil hne]

theorem line_line {placeholder : String} (h : Inline placeholder.toList)
    (hne : placeholder.toList ≠ []) (text : String) :
    line placeholder (String.ofList (line placeholder text)) = line placeholder text := by
  have hi := inline_line h text
  have hl := line_ne_nil hne text
  rw [line_eq_self (by rwa [String.toList_ofList]) (by rwa [String.toList_ofList]),
    String.toList_ofList]

/-! ## Products -/

/-- The product that a written product stands for: on one line, and without double quotes. -/
def productText (text : String) : List Char :=
  orElse "product" (oneLine (text.toList.filter (· ≠ '"')))

theorem product_eq (text : String) : product text =
    if (split '.' (productText text)).all isIdentifier then productText text
    else '"' :: productText text ++ ['"'] := by
  unfold product productText
  split
  · rename_i h
    rw [h]
    rfl
  · rename_i h
    rw [orElse_of_ne_nil h]

theorem inline_productText (text : String) : Inline (productText text) :=
  orElse_induction (IsWordOf.inline (p := isName) (fun _ => isBlank_of_isName) (by decide))
    (inline_oneLine _)

theorem productText_ne_nil (text : String) : productText text ≠ [] := orElse_ne_nil (by decide) _

theorem quote_not_mem_productText (text : String) : '"' ∉ productText text := by
  refine orElse_induction (P := ('"' ∉ ·)) (by decide) fun h => ?_
  rw [mem_oneLine_iff (by decide)] at h
  exact absurd (List.mem_filter.1 h).2 (by decide)

/-- A product is cleaned in one pass. -/
theorem productText_productText (text : String) :
    productText (String.ofList (productText text)) = productText text := by
  have hf : (productText text).filter (· ≠ '"') = productText text :=
    List.filter_eq_self.2 fun c hc =>
      decide_eq_true (ne_of_mem_of_not_mem hc (quote_not_mem_productText text))
  conv_lhs => rw [productText, String.toList_ofList, hf, (inline_productText text).oneLine_eq]
  exact orElse_of_ne_nil (productText_ne_nil text) _

theorem product_productText (text : String) :
    product (String.ofList (productText text)) = product text := by
  rw [product_eq, product_eq, productText_productText]

end Clean

end Blockscript
