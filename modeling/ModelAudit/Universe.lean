import ModelAudit.Script.Symbols

/-!
# Universes

A model may declare constants that stand for the elements of a sort. Constants
of one sort are meant to be different from each other.
-/

namespace ModelAudit.Universe

/-- Puts a name into the group of its sort; groups are in the order of their
first members. -/
def addToGroup (groups : List (SmtSort × List Text)) (sort : SmtSort)
    (name : Text) : List (SmtSort × List Text) :=
  match groups with
  | [] => [(sort, [name])]
  | (other, names) :: rest =>
    if other = sort then (other, names ++ [name]) :: rest
    else (other, names) :: addToGroup rest sort name

/-- Constants grouped by sort; groups of one constant are left out. -/
def groups (declarations : List Declaration) : List (SmtSort × List Text) :=
  let constants := declarations.filter Declaration.isConstant
  let groups := constants.foldl (fun groups declaration =>
    addToGroup groups declaration.result declaration.name) []
  groups.filter fun (_, names) => 1 < names.length

end ModelAudit.Universe
