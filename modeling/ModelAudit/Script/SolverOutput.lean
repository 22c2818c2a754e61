import ModelAudit.Text.Lines
import ModelAudit.Text.Word

/-!
# Model text in a solver's output

Solvers print a model after the answer `sat`, often in one more pair of
parentheses and sometimes after the word `model`. `SolverOutput.modelText`
removes these wrappers.
-/

namespace ModelAudit

inductive NoModelCause
  /-- The solver answered with this word instead of `sat`. -/
  | answered (answer : Text)
  /-- The output is `sat` alone. -/
  | missing
deriving DecidableEq

def NoModelCause.message : NoModelCause → Text
  | answered answer =>
    "Solver output reports '" ++ answer ++ "'; there is no model to check"
  | missing => "Solver output contains no model"

namespace SolverOutput

/-- Whether more than one line of the output holds the answer `sat` alone. -/
def hasSeveralAnswers (output : Text) : Bool :=
  1 < (output.strip.lines.filter fun line => line.strip = ("sat" : Text)).length

def severalAnswersWarning : Text :=
  "Multiple 'sat' in model, did you provide two models?"

/-- An answer other than `sat` at the start of the output. -/
def otherAnswer? (output : Text) : Option Text :=
  (["unsat", "unknown"] : List Text).find? fun answer =>
    output.startsWithWord answer

/-- Whether the output is the answer `sat` right before an opening
parenthesis. -/
def startsWithAnsweredList (output : Text) : Bool :=
  output.startsWith "sat" &&
    (Text.stripLeft (output.drop 3)).head? = some (CodePoint.ofChar '(')

/-- Removes the parentheses around a model that is itself a list of lists or
starts with the word `model`. -/
def unwrapList (model : Text) : Text :=
  let inner := Text.strip (model.drop 1).dropLast
  if model.endsWith ")" &&
    (inner.startsWith "(" || inner.startsWithWord "model") then inner
  else model

/-- Removes the word `model` at the start. -/
def dropModelWord (model : Text) : Text :=
  if model.startsWithWord "model" then Text.strip (model.drop 5) else model

def modelText (output : Text) : Except NoModelCause Text :=
  let model := output.strip
  match otherAnswer? model with
  | some answer => .error (.answered answer)
  | none =>
    if model = ("sat" : Text) then .error .missing
    else
      let unwrapped :=
        if startsWithAnsweredList model
          then unwrapList (Text.strip (model.drop 3)) else model
      .ok (dropModelWord unwrapped)

end SolverOutput

end ModelAudit
