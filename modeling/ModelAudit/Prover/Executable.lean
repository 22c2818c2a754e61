import ModelAudit.Text.Basic

/-!
# Looking for an executable

A name with a slash is a path. Any other name is looked up in the directories of
the search path.
-/

namespace ModelAudit.Executable

inductive Entry
  | directory
  | file (executable : Bool)
deriving DecidableEq

/-- Whether a command can be run. A path may also lead to a directory, since
that can be entered. -/
def isAvailable (lookup? : Text → Option Entry) (searchPath : List Text)
    (command : Text) : Bool :=
  if command.contains (CodePoint.ofChar '/') then
    match lookup? command with
    | none => false
    | some .directory => true
    | some (.file executable) => executable
  else
    searchPath.any fun directory =>
      lookup? (directory ++ "/" ++ command) = some (.file true)

end ModelAudit.Executable
