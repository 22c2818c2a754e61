import ModelAudit.CommandLine.Console
import ModelAudit.Table

/-!
# The program

Gathers the part of the world that the arguments name, runs, and shows the
report. There is no way to start other programs from here, so Isabelle is always
reported as missing, and evaluation stands in for the solver.
-/

namespace ModelAudit.Main

def faultKind (error : IO.Error) : SystemFaultKind :=
  match error with
  | .permissionDenied .. => .denied
  | .inappropriateType _ code _ =>
    if SystemFaultKind.isADirectory.number ∈ [code.toNat, (0 - code).toNat]
      then .isADirectory
    else .notADirectory
  | .invalidArgument .. => .nameTooLong
  | _ => .missing

/-- The string with the same code points. -/
def fileName (path : Text) : String :=
  String.ofList (path.map fun point => Char.ofNat point.toNat)

def contentsAt (path : Text) : IO (Except SystemFaultKind (List UInt8)) := do
  match ← (IO.FS.readBinFile (fileName path)).toBaseIO with
  | .ok bytes => return .ok bytes.toList
  | .error error => return .error (faultKind error)

/-- What keeps the system from telling what is at a path. -/
def lookFaultAt (path : Text) : IO (Option SystemFaultKind) := do
  match ← (IO.FS.realPath (fileName path)).toBaseIO with
  | .ok _ => return none
  | .error error =>
    let kind := faultKind error
    return if kind = .denied || kind = .nameTooLong then some kind else none

/-- The start, followed by the bytes that are left on a stream. -/
partial def readToEnd (stream : IO.FS.Stream) (start : ByteArray) :
  IO ByteArray := do
  let more ← stream.read 65536
  if more.isEmpty then return start else readToEnd stream (start ++ more)

def standardInput (source : ModelSource) : IO (Option Text) := do
  match source with
  | .file _ => return none
  | .standardInput =>
    let bytes ← readToEnd (← IO.getStdin) ByteArray.empty
    return Text.ofFile? bytes.toList

/-- The paths that a run may look at. -/
def paths (arguments : Arguments) : List Text :=
  let root := Path.ofText (arguments.root.getD [])
  let model : List Text :=
    match arguments.model with
    | .file path => [path]
    | .standardInput => []
  let inputs :=
    (arguments.formula :: model).map fun path => (Path.ofText path).text
  inputs ++ [root.text, (root.child TheoryRoot.overridesName).text]

/-- The world as far as a run with these arguments looks at it. -/
def worldFor (arguments : Arguments) : IO World := do
  let contents ← (paths arguments).mapM fun path =>
    return (path, ← contentsAt path)
  let looks ← (paths arguments).mapM fun path =>
    return (path, ← lookFaultAt path)
  let settings ← Settings.variableNames.mapM fun name =>
    return (name, (← IO.getEnv (fileName name)).map Text.ofString)
  let input ← standardInput arguments.model
  let lookup (path : Text) : Except SystemFaultKind (List UInt8) :=
    (Table.find? contents path).getD (.error .missing)
  return {
    contents := lookup
    isDirectory := fun path =>
      match lookup path with
      | .error .isADirectory => true
      | _ => false
    lookFault? := fun path => (Table.find? looks path).getD none
    writeFault? := fun _ => none
    environment := fun name => (Table.find? settings name).getD none
    standardInput := input
    prove := fun _ _ _ => .error .missing }

/-- A world without files, for command lines that are not understood. -/
def emptyWorld : World where
  contents := fun _ => .error .missing
  isDirectory := fun _ => false
  writeFault? := fun _ => none
  environment := fun _ => none
  standardInput := none
  prove := fun _ _ _ => .error .missing

def worldOf (words : List Text) : IO World :=
  match Arguments.parse words with
  | .ok arguments => worldFor arguments
  | .error _ => return emptyWorld

/-- Writes the kept theory and the two streams. -/
def display (report : Report) : IO Unit := do
  if let some (path, text) := report.written then
    IO.FS.writeBinFile (fileName path)
      (ByteArray.mk (Text.consoleBytes text).toArray)
  (← IO.getStderr).write
    (ByteArray.mk report.standardError.consoleBytes.toArray)
  (← IO.getStdout).write
    (ByteArray.mk report.standardOutput.consoleBytes.toArray)

end ModelAudit.Main

def main (arguments : List String) : IO UInt32 := do
  let words := arguments.map ModelAudit.Text.ofString
  let report := ModelAudit.run (← ModelAudit.Main.worldOf words) words
  ModelAudit.Main.display report
  return report.exitStatus.toUInt32
