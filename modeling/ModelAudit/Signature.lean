import ModelAudit.Operator
import ModelAudit.SmtSort

/-!
# Signatures of the built-in operators

Each operator follows one rule, which gives the sort of an application from the
sorts of its arguments and its indices, or says what does not fit. The checks of
a rule are made in a fixed order: indices, count of arguments, their sorts.
-/

namespace ModelAudit

structure Arity where
  least : Nat
  /-- None if there is no upper limit. -/
  most : Option Nat
deriving DecidableEq

namespace Arity

def exactly (count : Nat) : Arity :=
  ⟨count, some count⟩

def atLeast (count : Nat) : Arity :=
  ⟨count, none⟩

def allows (arity : Arity) (count : Nat) : Bool :=
  arity.least ≤ count && arity.most.all fun most => count ≤ most

def text (arity : Arity) : Text :=
  match arity.most with
  | none => "at least " ++ Text.decimal arity.least
  | some most =>
    if most = arity.least then Text.decimal arity.least
    else Text.decimal arity.least ++ " to " ++ Text.decimal most

end Arity

inductive SignatureFault
  | unexpectedIndices (operator : Operator)
  | argumentCount (operator : Operator) (arity : Arity) (got : Nat)
  /-- The argument at a place, counted from one, has another sort than it
  should. -/
  | argument (operator : Operator) (place : Nat) (got expected : SmtSort)
  | condition (got : SmtSort)
  | branches (first second : SmtSort)
  /-- The common sort of the arguments is none of the allowed ones. -/
  | operands (operator : Operator) (allowed : List SmtSort) (got : SmtSort)
  | operand (operator : Operator) (expected got : SmtSort)
  | bitVectorOperands (operator : Operator) (got : SmtSort)
  | bitVectorOperand (operator : Operator) (got : SmtSort)
  | extractionIndexCount
  | extractionRange (high low : Int) (sort : SmtSort)
  | extensionIndexCount (operator : Operator)
  | arrayOperand (operator : Operator) (got : SmtSort)
  | arrayIndex (operator : Operator) (got expected : SmtSort)
  | storedValue (got expected : SmtSort)

namespace SignatureFault

def named (operator : Operator) : Text :=
  "'" ++ operator.name ++ "'"

def message : SignatureFault → Text
  | unexpectedIndices operator => named operator ++ " does not take indices"
  | argumentCount operator arity got =>
    named operator ++ " expects " ++ arity.text ++ " argument(s), got " ++
      Text.decimal got
  | argument operator place got expected =>
    named operator ++ " argument " ++ Text.decimal place ++ " has sort " ++
      got.text ++
      ", expected " ++ expected.text
  | condition got =>
    "'ite' condition has sort " ++ got.text ++ ", expected Bool"
  | branches first second =>
    "'ite' branches have different sorts: " ++ first.text ++ " and " ++
      second.text
  | operands operator allowed got =>
    named operator ++ " expects " ++ Text.join " or "
      (allowed.map SmtSort.text) ++
      " operands, got " ++ got.text
  | operand operator expected got =>
    named operator ++ " expects a " ++ expected.text ++ " operand, got " ++
      got.text
  | bitVectorOperands operator got =>
    named operator ++ " expects bit-vector operands, got " ++ got.text
  | bitVectorOperand operator got =>
    named operator ++ " expects a bit-vector operand, got " ++ got.text
  | extractionIndexCount => "'extract' takes two indices"
  | extractionRange high low sort =>
    "'extract' indices " ++ Text.integer high ++ " " ++ Text.integer low ++
      " out of range for " ++ sort.text
  | extensionIndexCount operator => named operator ++ " takes one index"
  | arrayOperand operator got =>
    named operator ++ " expects an array, got " ++ got.text
  | arrayIndex operator got expected =>
    named operator ++ " index has sort " ++ got.text ++ ", expected " ++
      expected.text
  | storedValue got expected =>
    "'store' value has sort " ++ got.text ++ ", expected " ++ expected.text

end SignatureFault

inductive SignatureRule
  /-- Bool arguments and a Bool result. -/
  | booleans (arity : Arity)
  /-- Two or more arguments of one sort and a Bool result. -/
  | comparison
  | conditional
  /-- Arguments of one sort among those allowed; the result has this sort or is
  Bool. -/
  | numbers (arity : Arity) (allowed : List SmtSort) (toBool : Bool)
  /-- One argument. -/
  | conversion (operand result : SmtSort)
  /-- Bit-vectors of one width; the result has this width or is Bool. -/
  | bitVectors (arity : Arity) (toBool : Bool)
  | concatenation
  | extraction
  | extension
  | select
  | store
  /-- String arguments. -/
  | strings (arity : Arity) (result : SmtSort)
  /-- Arguments of the given sorts. -/
  | fixed (params : List SmtSort) (result : SmtSort)

namespace SignatureRule

def requireNoIndices (operator : Operator) (indices : List Int) :
    Except SignatureFault Unit :=
  if indices.isEmpty then .ok () else .error (.unexpectedIndices operator)

def requireArity (operator : Operator) (arity : Arity)
    (arguments : List SmtSort) : Except SignatureFault Unit :=
  if arity.allows arguments.length then .ok ()
  else .error (.argumentCount operator arity arguments.length)

/-- Checks that each argument has the sort expected at its place, counting from
the given place on. -/
def requireSorts (operator : Operator) (place : Nat) :
    (arguments expected : List SmtSort) → Except SignatureFault Unit
  | got :: arguments, wanted :: expected =>
    if got = wanted then requireSorts operator (place + 1) arguments expected
    else .error (.argument operator place got wanted)
  | _, _ => .ok ()

def commonSort (operator : Operator) : List SmtSort →
  Except SignatureFault SmtSort
  | [] => .error (.argumentCount operator (.atLeast 1) 0)
  | first :: others => do
    requireSorts operator 2 others (others.map fun _ => first)
    return first

def requireWidth (fault : SmtSort → SignatureFault) (sort : SmtSort) :
    Except SignatureFault Int :=
  match sort.width? with
  | some width => .ok width
  | none => .error (fault sort)

def requireArray (operator : Operator) (sort : SmtSort) :
    Except SignatureFault (SmtSort × SmtSort) :=
  match sort.arrayParts? with
  | some parts => .ok parts
  | none => .error (.arrayOperand operator sort)

/-- The sort of an application that follows the rule. -/
def resultSort (rule : SignatureRule) (operator : Operator)
    (arguments : List SmtSort) (indices : List Int) :
    Except SignatureFault SmtSort :=
  match rule with
  | booleans arity => do
    requireNoIndices operator indices
    requireArity operator arity arguments
    requireSorts operator 1 arguments (arguments.map fun _ => .bool)
    return .bool
  | comparison => do
    requireNoIndices operator indices
    requireArity operator (.atLeast 2) arguments
    let _ ← commonSort operator arguments
    return .bool
  | conditional => do
    requireNoIndices operator indices
    requireArity operator (.exactly 3) arguments
    match arguments with
    | [test, first, second] =>
      if test ≠ .bool then .error (.condition test)
      else if first ≠ second then .error (.branches first second)
      else return first
    | _ => .error (.argumentCount operator (.exactly 3) arguments.length)
  | numbers arity allowed toBool => do
    requireNoIndices operator indices
    requireArity operator arity arguments
    let sort ← commonSort operator arguments
    if allowed.contains sort then return if toBool then .bool else sort
    else .error (.operands operator allowed sort)
  | conversion expected result => do
    requireNoIndices operator indices
    requireArity operator (.exactly 1) arguments
    match arguments with
    | [got] =>
      if got = expected then return result
        else .error (.operand operator expected got)
    | _ => .error (.argumentCount operator (.exactly 1) arguments.length)
  | bitVectors arity toBool => do
    requireNoIndices operator indices
    requireArity operator arity arguments
    let sort ← commonSort operator arguments
    let _ ← requireWidth (.bitVectorOperands operator) sort
    return if toBool then .bool else sort
  | concatenation => do
    requireNoIndices operator indices
    requireArity operator (.exactly 2) arguments
    match arguments with
    | [left, right] =>
      let leftWidth ← requireWidth (.bitVectorOperands operator) left
      let rightWidth ← requireWidth (.bitVectorOperands operator) right
      return .bitVec (leftWidth + rightWidth)
    | _ => .error (.argumentCount operator (.exactly 2) arguments.length)
  | extraction => do
    requireArity operator (.exactly 1) arguments
    match arguments, indices with
    | [sort], [high, low] =>
      let width ← requireWidth (.bitVectorOperand operator) sort
      if 0 ≤ low ∧ low ≤ high ∧ high < width
        then return .bitVec (high - low + 1)
      else .error (.extractionRange high low sort)
    | _, _ => .error .extractionIndexCount
  | extension => do
    requireArity operator (.exactly 1) arguments
    match arguments, indices with
    | [sort], [added] =>
      let width ← requireWidth (.bitVectorOperand operator) sort
      return .bitVec (width + added)
    | _, _ => .error (.extensionIndexCount operator)
  | select => do
    requireNoIndices operator indices
    requireArity operator (.exactly 2) arguments
    match arguments with
    | [array, index] =>
      let (indexSort, elementSort) ← requireArray operator array
      if index = indexSort then return elementSort
      else .error (.arrayIndex operator index indexSort)
    | _ => .error (.argumentCount operator (.exactly 2) arguments.length)
  | store => do
    requireNoIndices operator indices
    requireArity operator (.exactly 3) arguments
    match arguments with
    | [array, index, value] =>
      let (indexSort, elementSort) ← requireArray operator array
      if index ≠ indexSort then .error (.arrayIndex operator index indexSort)
      else if value ≠ elementSort then .error (.storedValue value elementSort)
      else return array
    | _ => .error (.argumentCount operator (.exactly 3) arguments.length)
  | strings arity result => do
    requireNoIndices operator indices
    requireArity operator arity arguments
    requireSorts operator 1 arguments (arguments.map fun _ => .string)
    return result
  | fixed params result => do
    requireNoIndices operator indices
    requireArity operator (.exactly params.length) arguments
    requireSorts operator 1 arguments params
    return result

end SignatureRule

namespace Operator

/-- The rule that an operator follows; none for the two array forms, which get
their sorts from their own notation. -/
def rule? : Operator → Option SignatureRule
  | negation => some (.booleans (.exactly 1))
  | conjunction | disjunction => some (.booleans (.atLeast 1))
  | exclusiveOr | implication => some (.booleans (.atLeast 2))
  | equality | distinctness => some .comparison
  | conditional => some .conditional
  | addition | subtraction | multiplication =>
    some (.numbers (.atLeast 1) [.int, .real] false)
  | realDivision => some (.numbers (.atLeast 2) [.real] false)
  | integerDivision => some (.numbers (.atLeast 2) [.int] false)
  | modulus => some (.numbers (.exactly 2) [.int] false)
  | absolute => some (.conversion .int .int)
  | less | atMost | greater | atLeast =>
    some (.numbers (.atLeast 2) [.int, .real] true)
  | toReal => some (.conversion .int .real)
  | toInt => some (.conversion .real .int)
  | isInt => some (.conversion .real .bool)
  | bvnot | bvneg => some (.bitVectors (.exactly 1) false)
  | bvand | bvor | bvxor | bvadd | bvmul =>
    some (.bitVectors (.atLeast 2) false)
  | bvsub | bvudiv | bvurem | bvsdiv | bvsrem | bvsmod | bvshl | bvlshr
  | bvashr =>
    some (.bitVectors (.exactly 2) false)
  | bvult | bvule | bvugt | bvuge | bvslt | bvsle | bvsgt | bvsge =>
    some (.bitVectors (.exactly 2) true)
  | concatenation => some .concatenation
  | extraction => some .extraction
  | zeroExtension | signExtension => some .extension
  | select => some .select
  | store => some .store
  | constantArray | functionArray => none
  | stringConcat => some (.strings (.atLeast 2) .string)
  | stringLength => some (.conversion .string .int)
  | stringAt => some (.fixed [.string, .int] .string)
  | substring => some (.fixed [.string, .int, .int] .string)
  | prefixOf | suffixOf | stringContains => some (.strings (.exactly 2) .bool)
  | indexOf => some (.fixed [.string, .string, .int] .int)
  | replacement => some (.strings (.exactly 3) .string)
  | stringLess | stringAtMost => some (.strings (.atLeast 2) .bool)
  | stringToInt | oldStringToInt => some (.conversion .string .int)
  | stringFromInt | oldStringFromInt => some (.conversion .int .string)

end Operator

end ModelAudit
