import ModelAudit.Text.Basic

/-!
# Tables that keep the order of insertion

A table pairs names with values. Inserting under a name that is present replaces
the value and keeps its place; a new name goes to the end.
-/

namespace ModelAudit

abbrev Table (Value : Type) := List (Text × Value)

namespace Table

variable {Value : Type}

def find? (table : Table Value) (name : Text) : Option Value :=
  match table with
  | [] => none
  | (key, value) :: rest => if key = name then some value else find? rest name

def has (table : Table Value) (name : Text) : Bool :=
  (table.find? name).isSome

def insert (table : Table Value) (name : Text) (value : Value) : Table Value :=
  match table with
  | [] => [(name, value)]
  | (key, old) :: rest =>
    if key = name then (key, value) :: rest
      else (key, old) :: insert rest name value

/-- Inserts pairs one after the other, so the last of a name wins. -/
def ofPairs (pairs : List (Text × Value)) : Table Value :=
  pairs.foldl (fun table (name, value) => table.insert name value) []

def names (table : Table Value) : List Text :=
  table.map Prod.fst

def values (table : Table Value) : List Value :=
  table.map Prod.snd

theorem find?_insert (table : Table Value) (name other : Text) (value : Value) :
    (table.insert name value).find? other =
      if name = other then some value else table.find? other := by
  induction table with
  | nil => simp [insert, find?]
  | cons entry rest inductionHypothesis =>
      obtain ⟨key, old⟩ := entry
      by_cases sameKey : key = name
      · subst sameKey
        by_cases sameOther : key = other <;> simp [insert, find?, sameOther]
      · by_cases keyOther : key = other
        · subst keyOther
          simp [insert, find?, sameKey, Ne.symm sameKey]
        · simp [insert, find?, sameKey, keyOther, inductionHypothesis]

theorem names_insert (table : Table Value) (name : Text) (value : Value) :
    (table.insert name value).names =
      if name ∈ table.names then table.names else table.names ++ [name] := by
  induction table with
  | nil => simp [insert, names]
  | cons entry rest inductionHypothesis =>
      obtain ⟨key, old⟩ := entry
      by_cases sameKey : key = name
      · simp [insert, names, sameKey]
      · have tail := inductionHypothesis
        by_cases present : name ∈ names rest
        · simp only [present, if_true] at tail
          simp_all [insert, names]
        · simp only [present, if_false] at tail
          simp_all [insert, names, Ne.symm sameKey]

end Table

end ModelAudit
