import ModelAudit.Evaluation.Check
import ModelAudit.Number.Quantity
import ModelAudit.Prover.Run
import ModelAudit.Text.Quoted

/-!
# The world around a run

What the program sees of the machine it runs on. Each operation is a function,
so a run is determined by its arguments and its world. The prover and the solver
are part of the world.
-/

namespace ModelAudit

inductive SystemFaultKind
  | missing
  | denied
  | notADirectory
  | isADirectory
  | nameTooLong
deriving DecidableEq

namespace SystemFaultKind

def number : SystemFaultKind → Nat
  | missing => 2
  | denied => 13
  | notADirectory => 20
  | isADirectory => 21
  | nameTooLong => 36

def reason : SystemFaultKind → Text
  | missing => "No such file or directory"
  | denied => "Permission denied"
  | notADirectory => "Not a directory"
  | isADirectory => "Is a directory"
  | nameTooLong => "File name too long"

/-- Whether the fault says that there is no file at a path. -/
def isAbsence : SystemFaultKind → Bool
  | missing | notADirectory | isADirectory => true
  | denied | nameTooLong => false

end SystemFaultKind

/-- Why the system refuses to open a file or to start a program. -/
structure SystemFault where
  kind : SystemFaultKind
  path : Text
deriving DecidableEq

def SystemFault.message (fault : SystemFault) : Text :=
  "[Errno " ++ Text.decimal fault.kind.number ++ "] " ++
    fault.kind.reason ++ ": " ++
    fault.path.quoted

structure World where
  /-- The bytes of the file at a path. -/
  contents : Text → Except SystemFaultKind (List UInt8)
  isDirectory : Text → Bool
  /-- What keeps the system from telling what is at a path, if anything. -/
  lookFault? : Text → Option SystemFaultKind := fun path =>
    match contents path with
    | .error .nameTooLong => some .nameTooLong
    | _ => none
  /-- What keeps a file from being written; none if nothing does. -/
  writeFault? : Text → Option SystemFaultKind
  /-- The value of a variable of the environment. -/
  environment : Text → Option Text
  /-- The text on standard input; none if it is not encoded in UTF-8. -/
  standardInput : Option Text
  /-- Runs a command on the text of a theory under a time limit. -/
  prove : (command : List Text) → (theory : Text) → (limit : Quantity) →
    Except SystemFaultKind ProverRun
  /-- The solver. No result depends on the one that stands in. -/
  solver : Solver := Evaluation.solver

end ModelAudit
