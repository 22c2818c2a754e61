import ModelAudit.Hol.Spelling
import ModelAudit.Json.Reader
import ModelAudit.Text.Lines
import ModelAudit.Text.Utf8

/-!
# Theory roots

A theory root is the directory whose sessions a theory builds on. It may hold a
file that overrides the spellings of operators.
-/

namespace ModelAudit

/-- The text of a file: UTF-8, with every kind of line end read as a line
feed. -/
def Text.ofFile? (bytes : List UInt8) : Option Text :=
  (Text.decodeUtf8? bytes).map Text.unifyNewlines

structure TheoryRoot where
  /-- The path of the file with overrides. -/
  overridesPath : Text
  /-- The contents of that file, if there is one. -/
  overrides : Option (List UInt8)

inductive TheoryRootFault
  /-- The file is no text or no JSON. -/
  | unreadable (path : Text)
  | malformed (fault : OperatorTable.OverrideFault)
deriving DecidableEq

namespace TheoryRoot

def overridesName : Text :=
  "spec.json"

def readJson? (bytes : List UInt8) : Option Json := do
  Json.read? (← Text.ofFile? bytes)

def operators (root : TheoryRoot) : Except TheoryRootFault OperatorTable :=
  match root.overrides with
  | none => .ok .default
  | some bytes =>
    match readJson? bytes with
    | none => .error (.unreadable root.overridesPath)
    | some json =>
      match OperatorTable.default.applyOverrides json with
      | (none, table) => .ok table
      | (some fault, _) => .error (.malformed fault)

end TheoryRoot

end ModelAudit
