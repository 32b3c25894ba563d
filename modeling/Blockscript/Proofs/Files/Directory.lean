import Mathlib.Data.List.Basic
import Blockscript.Files.Directory

/-!
# Files that were written

A file that was written reads as it was written (`read_of_write`): writing takes no directory away
(`isDirectory_put`), so that the path leads where it led before (`followPath_put`), and it makes no
directory of the file itself.
-/

namespace Blockscript.Directory

variable {α : Type} {d : Directory α} {l : Location} {content : α}

theorem isDirectory_put {l' : Location} (h : d.isDirectory l' = true) :
    (d.put l content).isDirectory l' = true := by
  rw [isDirectory, Bool.or_eq_true, List.any_eq_true] at h ⊢
  refine h.imp id fun ⟨f, hf, hbelow⟩ => ?_
  by_cases hl : f.1 = l
  · exact ⟨(l, content), List.mem_append_right _ List.mem_cons_self, hl ▸ hbelow⟩
  · exact ⟨f, List.mem_append_left _ (List.mem_filter.2 ⟨hf, decide_eq_true hl⟩), hbelow⟩

/-- A file that is written over no directory is none. -/
theorem isDirectory_put_self (h : d.isDirectory l = false) (content : α) :
    (d.put l content).isDirectory l = false := by
  rw [isDirectory, Bool.or_eq_false_iff, List.any_eq_false] at h ⊢
  refine ⟨h.1, fun f hf => ?_⟩
  rcases List.mem_append.1 hf with hf | hf
  · exact h.2 f (List.mem_of_mem_filter hf)
  · rw [List.mem_singleton.1 hf]
    simp

theorem follow_put {l' l'' : Location} {name : FileName} (h : d.follow l' name = .ok l'') :
    (d.put l content).follow l' name = .ok l'' := by
  unfold follow at h ⊢
  split at h
  · rename_i hdots
    rwa [if_pos hdots]
  · rename_i hdots
    split at h
    · cases h
    · rename_i hlong
      split at h
      · rename_i hdir
        rwa [if_neg hdots, if_neg hlong, if_pos (isDirectory_put hdir)]
      · split at h <;> cases h

theorem foldlM_follow_put {names : List FileName} {l' l'' : Location}
    (h : names.foldlM d.follow l' = .ok l'') :
    names.foldlM (d.put l content).follow l' = .ok l'' := by
  induction names generalizing l' with
  | nil => exact h
  | cons name names ih =>
    rw [List.foldlM_cons] at h ⊢
    rcases hf : d.follow l' name with why | m
    · rw [hf] at h
      cases h
    · rw [hf] at h
      rw [follow_put hf]
      exact ih h

theorem followPath_put {path : String} {r : Location × Option FileName}
    (h : d.followPath path = .ok r) : (d.put l content).followPath path = .ok r := by
  unfold followPath at h ⊢
  split at h
  · cases h
  · rename_i hnull
    split at h
    · cases h
    · rename_i hempty
      split at h
      · cases h
      · rename_i hlong
        rw [if_neg hnull, if_neg hempty, if_neg hlong]
        dsimp only at h ⊢
        rcases hf : (Location.namesOf path).dropLast.foldlM d.follow (Location.start path) with
          why | m
        · rw [hf] at h
          cases h
        · rw [hf] at h
          rw [foldlM_follow_put hf]
          exact h

/-- All that writing does: the path leads to a name that is free for a file, and the file is put
there. -/
theorem exists_put_of_write {path : String} {d' : Directory α}
    (h : d.write path content = .ok d') :
    ∃ l name, d.followPath path = .ok (l, some name) ∧ endsInSlash path = false ∧
      isLongName name = false ∧ d.isDirectory (l.enter name) = false ∧
      d' = d.put (l.enter name) content := by
  unfold write at h
  split at h
  · cases h
  · cases h
  · rename_i l name hpath
    split at h
    · cases h
    · rename_i hslash
      split at h
      · cases h
      · rename_i hlong
        split at h
        · cases h
        · rename_i hdir
          cases h
          exact ⟨l, name, hpath, eq_false_of_ne_true hslash, eq_false_of_ne_true hlong,
            eq_false_of_ne_true hdir, rfl⟩

/-- **Reading a file** that was written gives what was written. -/
theorem read_of_write {path : String} {d' : Directory α} (h : d.write path content = .ok d') :
    d'.read path = .ok content := by
  obtain ⟨l, name, hpath, hslash, hlong, hdir, rfl⟩ := exists_put_of_write h
  rw [read, followPath_put hpath]
  dsimp only
  rw [hlong, isDirectory_put_self hdir, get?_put_self, hslash]
  rfl

end Blockscript.Directory
