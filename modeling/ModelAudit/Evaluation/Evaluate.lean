import ModelAudit.Evaluation.Operation
import ModelAudit.Expansion.Expression

/-!
# Evaluation of expressions

The value of an expression as far as it is known. Constants and functions
without definition have unknown values. A quantified variable takes each of its
values if its sort has few of them, and else an unknown one.
-/

namespace ModelAudit

/-- The number that a decimal denotes, written as digits around a point. -/
def Text.rationalValue (written : Text) : Rat :=
  let whole := written.takeWhile fun point : CodePoint => point ≠ '.'
  let part := (written.dropWhile fun point : CodePoint => point ≠ '.').drop 1
  mkRat (Text.decimalValue (whole ++ part)) (powerOfTen part.length)

def Literal.value : Literal → Value
  | bool value => .bool value
  | integer value => .integer value
  | decimal written => .rational (Text.rationalValue written)
  | bitVector value width => .bits (BitVec.ofNat width value)
  | string contents => .string contents

namespace Expression

def candidates (sort : SmtSort) : List Value :=
  match Scalar.all? sort with
  | some scalars => scalars.map .scalar
  | none => [.unknown]

/-- All choices of candidates for variables, the innermost variable first. -/
def assignments (sorts : List SmtSort) : List (List Value) :=
  sorts.foldl (fun chosen sort =>
    (candidates sort).flatMap fun value => chosen.map fun values =>
      value :: values) [[]]

mutual

/-- The value of an expression in a context: the values of its variables, the
innermost first. -/
def evaluate (apart : Apartness) (context : List Value) : Expression → Value
  | value given => given.literal.value
  | bound index _ => (context[index]?).getD .unknown
  | constant name sort =>
    if sort.arrayParts?.isSome then .unknown else .scalar (.symbol name)
  | application _ _ _ => .unknown
  | operation function indices arguments sort =>
    let sorts := arguments.map Expression.sort
    Operation.apply apart (function.operator sorts) indices
      (sorts.headD sort) sort (evaluateAll apart context arguments)
  | letIn values body =>
    evaluate apart ((evaluateAll apart context values).reverse ++ context) body
  | quantified quantifier sorts body =>
    let truths := (assignments sorts).map fun values =>
      (evaluate apart (values ++ context) body).truth
    .ofTruth <|
      match quantifier with
      | .universal => Truth.all truths
      | .existential => Truth.any truths
  | arrayOf _ _ body =>
    .functionArray fun index => evaluate apart (.scalar index :: context) body

def evaluateAll (apart : Apartness) (context : List Value) : List Expression →
  List Value
  | [] => []
  | first :: others =>
    evaluate apart context first :: evaluateAll apart context others

end

end Expression

end ModelAudit
