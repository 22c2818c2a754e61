import ModelAudit.Evaluation.Value
import ModelAudit.Operator
import ModelAudit.Text.Search

/-!
# The operators of SMT-LIB on values

An operation is known when its arguments are. The connectives, the conditional
and the selection from an array are also known when the unknown arguments do not
matter. Division by zero is unknown for numbers; for bit-vectors it is fixed.
-/

namespace ModelAudit.Operation

def chain {Element : Type} (holds : Element → Element → Truth) :
    List Element → Truth
  | first :: second :: others =>
    Truth.both (holds first second) (chain holds (second :: others))
  | _ => some true

def pairwise {Element : Type} (holds : Element → Element → Truth) :
    List Element → Truth
  | [] => some true
  | first :: others =>
    Truth.both (Truth.all (others.map (holds first))) (pairwise holds others)

/-- Combines known elements from the left; none if some step fails. -/
def foldLeft? {Element : Type} (combine : Element → Element → Option Element) :
    List (Option Element) → Option Element
  | [] => none
  | first :: others =>
    others.foldl (fun result other => do combine (← result) (← other)) first

/-- The value that a known result makes. -/
def known {Result : Type} (make : Result → Value) : Option Result → Value
  | some result => make result
  | none => .unknown

/-! ## Numbers -/

def integers? (combine : Int → Int → Option Int) (arguments : List Value) :
    Value :=
  known .integer (foldLeft? combine (arguments.map Value.integer?))

def rationals? (combine : Rat → Rat → Option Rat) (arguments : List Value) :
    Value :=
  known .rational (foldLeft? combine (arguments.map Value.rational?))

def numbers (sort : SmtSort) (onIntegers : Int → Int → Int)
    (onRationals : Rat → Rat → Rat) (arguments : List Value) : Value :=
  if sort = .int
    then integers? (fun left right => some (onIntegers left right)) arguments
  else rationals? (fun left right => some (onRationals left right)) arguments

/-- A subtraction; with one argument, its opposite. -/
def subtract (sort : SmtSort) (arguments : List Value) : Value :=
  match arguments with
  | [argument] =>
    if sort = .int
      then known .integer (argument.integer?.map fun number => -number)
    else known .rational (argument.rational?.map fun number => -number)
  | _ => numbers sort (· - ·) (· - ·) arguments

def compareNumbers (onIntegers : Int → Int → Bool)
    (onRationals : Rat → Rat → Bool) (arguments : List Value) : Value :=
  .ofTruth <| chain (fun left right =>
    match left, right with
    | .scalar (.integer left), .scalar (.integer right) =>
      some (onIntegers left right)
    | .scalar (.rational left), .scalar (.rational right) =>
      some (onRationals left right)
    | _, _ => none) arguments

def unlessZero {Number : Type} [DecidableEq Number] (zero : Number)
    (divide : Number → Number → Number) (left right : Number) : Option Number :=
  if right = zero then none else some (divide left right)

/-! ## Bit-vectors -/

/-- An operation on two bit-vectors of one width. -/
def onBits {Result : Type}
    (operation : {width : Nat} → BitVec width → BitVec width → Result) :
    Value → Value → Option Result
  | .scalar (.bits leftWidth left), .scalar (.bits rightWidth right) =>
    if same : rightWidth = leftWidth
      then some (operation left (right.cast same)) else none
  | _, _ => none

/-- An operation on bit-vectors that keeps the width, applied from the left. -/
def bits (operation : {width : Nat} → BitVec width → BitVec width →
    BitVec width) (arguments : List Value) : Value :=
  match arguments with
  | [] => .unknown
  | first :: others =>
    others.foldl (fun result other =>
      known id (onBits (fun left right => Value.bits (operation left right))
        result other)) first

def compareBits (operation : {width : Nat} → BitVec width → BitVec width → Bool)
    (arguments : List Value) : Value :=
  match arguments with
  | [left, right] => .ofTruth (onBits operation left right)
  | _ => .unknown

def oneBits (operation : {width : Nat} → BitVec width → Value)
    (arguments : List Value) : Value :=
  match arguments with
  | [.scalar (.bits _ value)] => operation value
  | _ => .unknown

/-- Shifts by the width or more leave nothing of the first operand. -/
def shiftLeft {width : Nat} (value amount : BitVec width) : BitVec width :=
  if amount.toNat < width then value <<< amount.toNat else 0

def shiftRight {width : Nat} (value amount : BitVec width) : BitVec width :=
  if amount.toNat < width then value >>> amount.toNat else 0

/-- A shift to the right that keeps the sign. -/
def signedShiftRight {width : Nat} (value amount : BitVec width) :
    BitVec width :=
  value.sshiftRight (min amount.toNat width)

def concatenate (arguments : List Value) : Value :=
  match arguments with
  | [.scalar (.bits _ left), .scalar (.bits _ right)] => .bits (left ++ right)
  | _ => .unknown

/-! ## Strings -/

def isTextChain (holds : Text → Text → Bool) (arguments : List Value) : Value :=
  .ofTruth <| chain
    (fun left right => do return holds (← left.string?) (← right.string?))
    arguments

def onTexts (holds : Text → Text → Bool) (arguments : List Value) : Value :=
  match arguments with
  | [left, right] =>
    .ofTruth (do return holds (← left.string?) (← right.string?))
  | _ => .unknown

/-- The number that a text of digits denotes, and −1 for any other text. -/
def textToInteger (text : Text) : Int :=
  if !text.isEmpty && text.all CodePoint.isDigit
    then (Text.decimalValue text : Int) else -1

/-- The digits of a number that is not negative, and nothing for any other
one. -/
def integerToText (number : Int) : Text :=
  if number < 0 then [] else Text.integer number

def substring (arguments : List Value) : Value :=
  match arguments with
  | [text, start, length] =>
    known .string do
      return Text.part (← text.string?) (← start.integer?) (← length.integer?)
  | _ => .unknown

def indexOf (arguments : List Value) : Value :=
  match arguments with
  | [text, pattern, start] =>
    known .integer (do
      let found :=
        Text.positionFrom? (← pattern.string?) (← text.string?)
          (← start.integer?)
      return (found.map fun place => (place : Int)).getD (-1))
  | _ => .unknown

def replace (arguments : List Value) : Value :=
  match arguments with
  | [text, pattern, replacement] =>
    known .string (do
      return Text.replaceFirst (← pattern.string?) (← replacement.string?)
        (← text.string?))
  | _ => .unknown

/-! ## All operators -/

/-- A conditional is known if both branches are equal, whatever the test. -/
def conditional (apart : Apartness) (sort : SmtSort) (arguments : List Value) :
    Value :=
  match arguments with
  | [test, first, second] =>
    match test.truth with
    | some true => first
    | some false => second
    | none =>
      if Value.equal? apart sort first second = some true then first
        else .unknown
  | _ => .unknown

/-- The value of an operator applied to arguments of a sort; the result has the
other sort. -/
def apply (apart : Apartness) (operator : Operator) (indices : List Nat)
    (argumentSort resultSort : SmtSort) (arguments : List Value) : Value :=
  let truths := arguments.map Value.truth
  let equal (left right : Value) : Truth :=
    Value.equal? apart argumentSort left right
  let onInteger (make : Int → Value) : Value :=
    match arguments with
    | [argument] => known make argument.integer?
    | _ => .unknown
  let onRational (make : Rat → Value) : Value :=
    match arguments with
    | [argument] => known make argument.rational?
    | _ => .unknown
  let onText (make : Text → Value) : Value :=
    match arguments with
    | [argument] => known make argument.string?
    | _ => .unknown
  match operator with
  | .negation => .ofTruth (Truth.all truths).negate
  | .conjunction => .ofTruth (Truth.all truths)
  | .disjunction => .ofTruth (Truth.any truths)
  | .exclusiveOr =>
    .ofTruth (foldLeft? (fun left right => some (left != right)) truths)
  | .implication => .ofTruth (Truth.implies truths)
  | .equality => .ofTruth (chain equal arguments)
  | .distinctness =>
    .ofTruth (pairwise (fun left right => (equal left right).negate) arguments)
  | .conditional => conditional apart resultSort arguments
  | .addition => numbers resultSort (· + ·) (· + ·) arguments
  | .subtraction => subtract resultSort arguments
  | .multiplication => numbers resultSort (· * ·) (· * ·) arguments
  | .realDivision => rationals? (unlessZero 0 (· / ·)) arguments
  | .integerDivision => integers? (unlessZero 0 Int.ediv) arguments
  | .modulus => integers? (unlessZero 0 Int.emod) arguments
  | .absolute => onInteger fun number => .integer number.natAbs
  | .less => compareNumbers (fun l r => l < r) (fun l r => l < r) arguments
  | .atMost => compareNumbers (fun l r => l ≤ r) (fun l r => l ≤ r) arguments
  | .greater => compareNumbers (fun l r => r < l) (fun l r => r < l) arguments
  | .atLeast => compareNumbers (fun l r => r ≤ l) (fun l r => r ≤ l) arguments
  | .toReal => onInteger fun number => .rational number
  | .toInt => onRational fun number => .integer number.floor
  | .isInt => onRational fun number => .bool (number.den = 1)
  | .bvnot => oneBits (fun value => .bits (~~~value)) arguments
  | .bvneg => oneBits (fun value => .bits (-value)) arguments
  | .bvand => bits (fun left right => left &&& right) arguments
  | .bvor => bits (fun left right => left ||| right) arguments
  | .bvxor => bits (fun left right => left ^^^ right) arguments
  | .bvadd => bits (fun left right => left + right) arguments
  | .bvsub => bits (fun left right => left - right) arguments
  | .bvmul => bits (fun left right => left * right) arguments
  | .bvudiv => bits BitVec.smtUDiv arguments
  | .bvurem => bits (fun left right => left % right) arguments
  | .bvsdiv => bits BitVec.smtSDiv arguments
  | .bvsrem => bits BitVec.srem arguments
  | .bvsmod => bits BitVec.smod arguments
  | .bvshl => bits shiftLeft arguments
  | .bvlshr => bits shiftRight arguments
  | .bvashr => bits signedShiftRight arguments
  | .bvult => compareBits BitVec.ult arguments
  | .bvule => compareBits BitVec.ule arguments
  | .bvugt => compareBits (fun left right => right.ult left) arguments
  | .bvuge => compareBits (fun left right => right.ule left) arguments
  | .bvslt => compareBits BitVec.slt arguments
  | .bvsle => compareBits BitVec.sle arguments
  | .bvsgt => compareBits (fun left right => right.slt left) arguments
  | .bvsge => compareBits (fun left right => right.sle left) arguments
  | .concatenation => concatenate arguments
  | .extraction =>
    match indices with
    | [high, low] =>
      oneBits (fun value => .bits (value.extractLsb high low)) arguments
    | _ => .unknown
  | .zeroExtension =>
    oneBits (fun {width} value => .bits
      (value.setWidth (width + indices.headD 0))) arguments
  | .signExtension =>
    oneBits (fun {width} value => .bits
      (value.signExtend (width + indices.headD 0))) arguments
  | .select =>
    match arguments with
    | [array, index] => array.selectAt apart index
    | _ => .unknown
  | .store =>
    match arguments with
    | [array, index, element] => array.storeAt index element
    | _ => .unknown
  | .constantArray =>
    match arguments with
    | [element] => .constantArray element
    | _ => .unknown
  | .functionArray => .unknown
  | .stringConcat =>
    known .string (foldLeft? (fun left right => some (left ++ right))
      (arguments.map Value.string?))
  | .stringLength => onText fun text => .integer text.length
  | .stringAt => substring (arguments ++ [.integer 1])
  | .substring => substring arguments
  | .prefixOf => onTexts (fun start text => text.startsWith start) arguments
  | .suffixOf => onTexts (fun ending text => text.endsWith ending) arguments
  | .stringContains =>
    onTexts (fun text pattern => Text.mentions pattern text) arguments
  | .indexOf => indexOf arguments
  | .replacement => replace arguments
  | .stringLess => isTextChain Text.less arguments
  | .stringAtMost =>
    isTextChain (fun left right => !Text.less right left) arguments
  | .stringToInt | .oldStringToInt =>
    onText fun text => .integer (textToInteger text)
  | .stringFromInt | .oldStringFromInt =>
    onInteger fun number => .string (integerToText number)

end ModelAudit.Operation
