import CrossPlan.Record
import CrossPlan.Text.Blank

/-!
# Renaming columns

A renaming lists clauses `old AS new`, divided by commas.  A clause that names nothing new is passed
over.
-/

set_option autoImplicit false

namespace CrossPlan

/-- The old and the new name in a clause, if it has both. -/
def renameClause? (clause : List Char) : Option (String × String) :=
  let clause := Text.trimChars clause
  (Text.find? " as ".toList (clause.map Char.toLower)).bind fun place =>
    let old := Text.trimChars (clause.take place)
    let new := Text.trimChars (clause.drop (place + 4))
    if old.isEmpty || new.isEmpty then none else some (String.ofList old, String.ofList new)

def parseRenames (text : String) : List (String × String) :=
  (Text.pieces (· == ',') text.toList).filterMap renameClause?

/-- A row with the names of its fields replaced by the first renaming that has them. -/
def Record.rename (renames : List (String × String)) (row : Record) : Record :=
  ⟨row.fields.map fun field =>
    match renames.find? fun pair => pair.1 == field.1 with
    | some (_, new) => (new, field.2)
    | none => field⟩

/-- A row with the given columns in their order, as far as it has them. -/
def Record.project (columns : List String) (row : Record) : Record :=
  columns.foldl (fun kept column =>
    match row.get? column with
    | some value => kept.set column value
    | none => kept) Record.empty

end CrossPlan
