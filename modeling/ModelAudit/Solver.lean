import ModelAudit.Expansion.Unfolding
import ModelAudit.Script.Session
import ModelAudit.Universe
import ModelAudit.Verdict

/-!
# Asking a solver

A solver is asked whether the formula can fail in the model, and if so, whether
it can hold. Definitions are unfolded in both questions, and constants that the
model declares for one sort are assumed to be different. The solver itself is
not part of the program: it is a parameter, of which nothing is known but the
form of its answers.
-/

namespace ModelAudit

inductive Answer
  | satisfiable
  | unsatisfiable
  | unknown (reason : Text)
deriving DecidableEq

/-- Whether a claim can hold under assumptions. -/
structure Question where
  assumptions : List Expression
  claim : Expression

structure Solver where
  /-- Why the library of the solver refuses to make an expression for the pair,
  up to the first use of a recursive definition; none if it makes them all. -/
  refusal? : Session.Pair → Option Text
  /-- The answer that is found in some milliseconds, or the complaint of the
  library. -/
  answer : (milliseconds : Nat) → Question → Except Text Answer

/-- The questions about a pair. -/
structure Inquiry where
  /-- Whether the formula can fail. -/
  failing : Question
  /-- Whether the formula can hold. -/
  holding : Question

namespace Inquiry

/-- The groups of constants that are assumed to be different. -/
def assumedApart (pair : Session.Pair) : List (SmtSort × List Text) :=
  Universe.groups pair.model.declarations

/-- The constants of a group are different. -/
def distinctness (group : SmtSort × List Text) : Expression :=
  let (sort, names) := group
  .operation .distinct [] (names.map fun name => .constant name sort) .bool

def conjunction (assertions : List Expression) : Expression :=
  if assertions.isEmpty then .value (.bool true)
    else .operation .and [] assertions .bool

def ofPair (pair : Session.Pair) : Except Unsupported Inquiry := do
  let definitions := pair.formula.definitions ++ pair.model.definitions
  let formula :=
    conjunction (← Unfolding.assertions definitions pair.formula.assertions)
  let assumptions := (assumedApart pair).map distinctness
  return ⟨⟨assumptions, .operation .not [] [formula] .bool⟩,
    ⟨assumptions, formula⟩⟩

/-- The name under which verdicts of the solver are reported. -/
def checkerName : Text :=
  "z3"

/-- Said of formulas that depend on what the model leaves open. -/
def openValue : Text :=
  "the model does not fix the formula's value"

/-- The reasons that tell of a time limit. -/
def timeReasons : List Text :=
  ["timeout", "canceled"]

/-- What is said of a formula that can fail and can hold, as far as it is
known. -/
def diagnostic : (first second : Answer) → Text
  | _, .unknown reason | .unknown reason, _ =>
    if reason.isEmpty then openValue
    else if timeReasons.contains reason then "timeout"
    else reason
  | _, _ => openValue

def judgement (kind : VerdictKind) (diagnostic : Option Text) : Verdict :=
  ⟨kind, diagnostic, checkerName, .integer 0⟩

/-- The verdict that follows from the answers. The second question is only asked
if the formula is not known to hold. -/
def verdict {Complaint : Type} (ask : Question → Except Complaint Answer)
    (inquiry : Inquiry) : Except Complaint Verdict := do
  match ← ask inquiry.failing with
  | .unsatisfiable => return judgement .satisfied none
  | first =>
    match ← ask inquiry.holding with
    | .unsatisfiable => return judgement .refuted none
    | second => return judgement .indeterminate (some (diagnostic first second))

end Inquiry

end ModelAudit
