import ModelAudit.Hol.Identifier
import ModelAudit.Table

/-!
# Scopes of HOL binders

A scope maps the names of SMT-LIB binders to the identifiers that stand for
them, and knows all identifiers that a new binder must not reuse.
-/

namespace ModelAudit

structure HolScope where
  names : Table Text
  /-- The identifiers in use, those of the names included. -/
  taken : List Text

namespace HolScope

/-- The scope with the given names, in which further identifiers are taken. -/
def ofNames (names : Table Text) (taken : List Text) : HolScope :=
  ⟨names, taken ++ names.values.filter fun identifier =>
    !taken.contains identifier⟩

def lookup? (scope : HolScope) (name : Text) : Option Text :=
  scope.names.find? name

/-- The identifier that a name denotes; names without binder are global. -/
def identifier (scope : HolScope) (name : Text) : Text :=
  (scope.lookup? name).getD (Identifier.escape name)

def primed (identifier : Text) (number : Nat) : Text :=
  identifier ++ "'" ++ Text.decimal number

/-- The first of `base'1`, `base'2`, … that is not to be avoided. There are more
candidates than identifiers to avoid, so one is found. -/
def firstPrimed (base : Text) (avoided : List Text) : Text :=
  (((List.range (avoided.length + 1)).map fun index => primed base
    (index + 1)).find?
    fun candidate => !avoided.contains candidate).getD base

/-- The identifier of a new binder: the escaped name, with a prime and a number
if the escaped name is reserved, taken, or to be avoided. -/
def fresh (scope : HolScope) (name : Text) (avoided : List Text) : Text :=
  let base := Identifier.escape name
  let unusable := scope.taken ++ avoided
  if unusable.contains base || Identifier.reserved.contains base then
    firstPrimed base unusable
  else base

/-- Identifiers for binders that are entered together. Each comes with the
identifiers that it has to avoid besides those picked before it. -/
def pick (scope : HolScope) (picked : List Text) :
    List (Text × List Text) → List (Text × Text)
  | [] => []
  | (name, avoided) :: rest =>
    let identifier := scope.fresh name (picked ++ avoided)
    (name, identifier) :: pick scope (identifier :: picked) rest

/-- The scope inside binders; of a repeated name the last one counts. -/
def bind (scope : HolScope) (pairs : List (Text × Text)) : HolScope :=
  let names :=
    pairs.foldl (fun names (name, identifier) => names.insert name identifier)
      scope.names
  ofNames names scope.taken

end HolScope

end ModelAudit
