/-!
# Tables

A `Table` holds values under names, each name once, in the order in which the names came. Putting a
value under a name that is there replaces the value and keeps the place.
-/

namespace Blockscript

/-- Values under names, in order. -/
structure Table (α : Type) where
  entries : List (String × α) := []
  deriving Repr

namespace Table

variable {α : Type}

/-- The value under a name. -/
def get? (t : Table α) (name : String) : Option α := (t.entries.find? (·.1 = name)).map (·.2)

/-- Entries with the value under a name replaced, or added as the last one. -/
def putEntry (name : String) (a : α) : List (String × α) → List (String × α)
  | [] => [(name, a)]
  | e :: es => if e.1 = name then (name, a) :: es else e :: putEntry name a es

/-- The table with a value put under a name. -/
def put (t : Table α) (name : String) (a : α) : Table α := ⟨putEntry name a t.entries⟩

/-- The table of the entries, where the last value under a name counts. -/
def ofList (entries : List (String × α)) : Table α :=
  entries.foldl (fun t e => t.put e.1 e.2) {}

theorem get?_put (t : Table α) (name : String) (a : α) (other : String) :
    (t.put name a).get? other = if other = name then some a else t.get? other := by
  obtain ⟨es⟩ := t
  simp only [get?, put]
  induction es with
  | nil => by_cases h : other = name <;> simp [putEntry, h, eq_comm]
  | cons e es ih =>
    by_cases he : e.1 = name
    · by_cases h : other = name <;> simp [putEntry, he, h, eq_comm]
    · by_cases ho : e.1 = other
      · simp [putEntry, ho, ho ▸ he]
      · simp [putEntry, he, ho, ih]

end Table

end Blockscript
