import ModelAudit.Script.Symbols

/-!
# What assertions depend on

The names that assertions mention, directly or through the bodies of
definitions. A definition's body is looked into at most once.
-/

namespace ModelAudit

/-- The names in a definition's body that are not its parameters. -/
def Definition.freeNames (definition : Definition) : List Text :=
  definition.body.freeNames.filter fun name =>
    !(definition.params.map Prod.fst).contains name

namespace Table

variable {Value : Type}

def erase (table : Table Value) (name : Text) : Table Value :=
  table.filter fun (key, _) => key ≠ name

theorem length_erase_lt (table : Table Value) (name : Text) (value : Value)
    (found : table.find? name = some value) :
    (table.erase name).length < table.length := by
  induction table with
  | nil => simp [find?] at found
  | cons entry rest inductionHypothesis =>
      obtain ⟨key, old⟩ := entry
      by_cases sameKey : key = name
      · have shorter : (erase rest name).length ≤ rest.length :=
          List.length_filter_le _ _
        simp only [erase, sameKey, List.filter_cons] at shorter ⊢
        simp only [List.length_cons]
        simpa using Nat.lt_succ_of_le shorter
      · have shorter :=
          inductionHypothesis (by simpa [find?, sameKey] using found)
        simpa [erase, sameKey] using shorter

end Table

namespace Reachability

/-- Adds to the reached names those still to be visited, and what the
definitions of the visited names mention. A definition leaves the table when its
name is visited. -/
def visit (remaining : Table Definition) (reached : List Text) : List Text →
  List Text
  | [] => reached
  | name :: pending =>
    if reached.contains name then visit remaining reached pending
    else
      match _found : Table.find? remaining name with
      | none => visit remaining (name :: reached) pending
      | some definition =>
        visit (Table.erase remaining name) (name :: reached)
          (definition.freeNames ++ pending)
termination_by pending => (remaining.length, pending.length)
decreasing_by
  · exact Prod.Lex.right _ (Nat.lt_succ_self _)
  · exact Prod.Lex.right _ (Nat.lt_succ_self _)
  · exact Prod.Lex.left _ _
      (Table.length_erase_lt remaining name definition _found)

/-- The names that the assertions depend on, each once. -/
def reachedNames (assertions : List Term) (definitions : List Definition) :
    List Text :=
  visit (Table.ofPairs
    (definitions.map fun definition => (definition.name, definition))) []
    (assertions.flatMap Term.freeNames)

def keptDefinitions (reached : List Text) (definitions : List Definition) :
    List Definition :=
  definitions.filter fun definition => reached.contains definition.name

end Reachability

end ModelAudit
