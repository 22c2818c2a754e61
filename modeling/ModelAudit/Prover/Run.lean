import ModelAudit.Number.Quantity
import ModelAudit.Text.Lines

/-!
# Runs of the prover

What is left of a run once the process is gone, and excerpts of what it wrote.
-/

namespace ModelAudit

inductive RunEnd
  | timedOut
  /-- The process ended by itself, with a status if there is one. -/
  | finished (status : Option Int)
deriving DecidableEq

structure ProverRun where
  ending : RunEnd
  /-- What the process wrote to standard output. -/
  output : Text
  /-- What the process wrote to standard error. -/
  errors : Text
  milliseconds : Quantity
deriving DecidableEq

/-- The elements from a place on that is counted from the end. A place that is
not positive counts from the start instead, without its sign. -/
def dropUntilLast {Element : Type} (place : Int) (elements : List Element) :
    List Element :=
  if 0 < place then elements.drop (elements.length - place.toNat)
  else elements.drop (-place).toNat

/-- The last lines of a text without the white space around it. A count of zero
keeps all lines, and a negative one leaves out lines at the start. -/
def Text.excerpt (count : Int) (text : Text) : Text :=
  Text.join "\n" (dropUntilLast count text.strip.displayLines)

/-- How many lines an excerpt has at most. -/
def excerptLength : Int :=
  20

namespace ProverRun

def outputExcerpt (run : ProverRun) : Text :=
  run.output.excerpt excerptLength

def errorsExcerpt (run : ProverRun) : Text :=
  run.errors.excerpt excerptLength

end ProverRun

end ModelAudit
