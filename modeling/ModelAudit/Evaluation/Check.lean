import ModelAudit.Evaluation.Evaluate
import ModelAudit.Solver

/-!
# A solver that evaluates

Stands in where no solver is at hand: a question is answered by evaluating its
claim. Constants that are assumed to be different are taken to be apart from
each other; if they cannot be, the assumptions do not hold. A claim whose value
is not known counts as one that can hold.
-/

namespace ModelAudit.Evaluation

/-- Whether constants of a sort can all be different. -/
def isPossible (group : SmtSort × List Text) : Bool :=
  let (sort, names) := group
  names.Nodup && names.length ≤ sort.sizeUpTo names.length

def apartness (groups : List (SmtSort × List Text)) : Apartness :=
  fun left right =>
  groups.any fun (_, names) =>
    left ≠ right && names.contains left && names.contains right

/-- The constant that an expression is, with its sort. -/
def constant? : Expression → Option (SmtSort × Text)
  | .constant name sort => some (sort, name)
  | _ => none

/-- The constants of which an assumption says that they are different. -/
def group : Expression → SmtSort × List Text
  | .operation .distinct _ arguments sort =>
    let constants := arguments.filterMap constant?
    ((constants.head?).elim sort Prod.fst, constants.map Prod.snd)
  | other => (other.sort, [])

/-- The answer to a question, as far as evaluation tells. -/
def answer (question : Question) : Answer :=
  let groups := question.assumptions.map group
  let value := question.claim.evaluate (apartness groups) []
  if groups.all isPossible && value.truth ≠ some false then .satisfiable
    else .unsatisfiable

/-- Takes no notice of the time limit, and never complains. -/
def solver : Solver where
  refusal? _ := none
  answer _ question := .ok (answer question)

/-- The verdict on a pair that follows from the answers. -/
def check (pair : Session.Pair) : Except Unsupported Verdict := do
  let inquiry ← Inquiry.ofPair pair
  inquiry.verdict fun question => .ok (answer question)

end ModelAudit.Evaluation
