import CrossPlan.Json.Value

/-!
# Tables

Rows under text keys, in ascending order of the keys.
-/

set_option autoImplicit false

namespace CrossPlan

structure Table (β : Type) where
  rows : List (String × β)
  deriving Inhabited

namespace Table

variable {β : Type}

def empty : Table β := ⟨[]⟩

def get? (table : Table β) (key : String) : Option β :=
  (table.rows.find? fun row => row.1 == key).map (·.2)

/-- Puts a row where its key belongs, in place of the row of that key if there is one. -/
def insert (table : Table β) (key : String) (value : β) : Table β :=
  ⟨Json.putField key value table.rows⟩

def keys (table : Table β) : List String := table.rows.map (·.1)

def size (table : Table β) : Nat := table.rows.length

def ofList (rows : List (String × β)) : Table β := ⟨Json.sortFields rows⟩

/-- The rows of both tables; a key of both has the row of the second. -/
def merge (table other : Table β) : Table β :=
  other.rows.foldl (fun merged row => merged.insert row.1 row.2) table

@[simp] theorem get?_empty (key : String) : (empty : Table β).get? key = none := rfl

theorem find?_putField (key other : String) (value : β) (rows : List (String × β)) :
    ((Json.putField key value rows).find? fun row => row.1 == other).map (·.2) =
      if other = key then some value else (rows.find? fun row => row.1 == other).map (·.2) := by
  induction rows with
  | nil =>
    by_cases same : other = key
    · simp [Json.putField, same]
    · simp [Json.putField, same, Ne.symm same]
  | cons row rest ih =>
    obtain ⟨name, old⟩ := row
    unfold Json.putField
    split
    · next equal =>
      subst equal
      by_cases same : other = key
      · simp [same]
      · simp [same, Ne.symm same]
    · next different =>
      split
      · by_cases same : other = key
        · simp [same]
        · simp [same, Ne.symm same]
      · by_cases found : name = other
        · subst found
          have : ¬ name = key := fun e => different e.symm
          simp [this]
        · simp [found, ih]

/-- A table answers with what was put last under a key. -/
theorem get?_insert (table : Table β) (key other : String) (value : β) :
    (table.insert key value).get? other = if other = key then some value else table.get? other :=
  find?_putField key other value table.rows

end Table

end CrossPlan
