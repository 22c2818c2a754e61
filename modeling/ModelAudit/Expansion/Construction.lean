import ModelAudit.Expansion.Expression

/-!
# How operators are made of the solver's functions

Most functions of the solver take a fixed number of operands. Applications of
an operator to more of them are taken apart: they are nested to one side, or all
pairs of neighbours are compared.
-/

namespace ModelAudit

def Literal.constant : Literal → SolverConstant
  | bool value => .bool value
  | integer value => .int value
  | decimal written => .real written
  | bitVector value width => .bitVec value width
  | string contents => .string contents

/-- The shapes in which operators are made of functions. -/
inductive Construction
  /-- The function takes all operands at once. -/
  | direct (function : SolverFunction)
  | unary (function : SolverFunction)
  | binary (function : SolverFunction)
  /-- The function takes the indices of the operator and one operand. -/
  | indexed (function : SolverFunction)
  /-- The first two operands are combined, then the result and the third one,
  and so on. -/
  | left (function : SolverFunction)
  /-- All pairs of neighbours are related. -/
  | chain (function : SolverFunction)
  /-- All operands but the last one are premises. -/
  | implications
  /-- The opposite of a single operand, or differences from the left. -/
  | differences
  /-- The part of length one at a place of a string. -/
  | characterAt

namespace Construction

open Expression (operation)

def foldLeft (function : SolverFunction) (sort : SmtSort) :
    List Expression → Expression
  | [] => operation function [] [] sort
  | first :: others =>
    others.foldl
      (fun result other => operation function [] [result, other] sort) first

/-- The conjunction of a relation between all neighbours. -/
def relateNeighbours (function : SolverFunction) (arguments : List Expression) :
    Expression :=
  operation .and [] ((arguments.zip arguments.tail).map fun (earlier, later) =>
    operation function [] [earlier, later] .bool) .bool

/-- The last expression under the premises before it. -/
def implyLast : List Expression → Expression
  | [] => operation .implies [] [] .bool
  | [conclusion] => conclusion
  | premise :: others => operation .implies [] [premise, implyLast others] .bool

/-- The expression for an operator with indices and arguments, of the sort of
their application. Arguments are missing in no term that is read; without them
the function is left as it is. -/
def build (construction : Construction) (indices : List Nat)
    (arguments : List Expression) (sort : SmtSort) : Expression :=
  match construction, arguments with
  | direct function, _ => operation function [] arguments sort
  | unary function, first :: _ => operation function [] [first] sort
  | unary function, [] => operation function [] [] sort
  | binary function, first :: second :: _ =>
    operation function [] [first, second] sort
  | binary function, _ => operation function [] arguments sort
  | indexed function, first :: _ => operation function indices [first] sort
  | indexed function, [] => operation function indices [] sort
  | left function, _ => foldLeft function sort arguments
  | chain function, _ => relateNeighbours function arguments
  | implications, _ => implyLast arguments
  | differences, [single] => operation .opposite [] [single] sort
  | differences, _ => foldLeft .minus sort arguments
  | characterAt, first :: second :: _ =>
    operation .subString [] [first, second, .value (.int 1)] sort
  | characterAt, _ => operation .subString [] arguments sort

end Construction

namespace Operator

/-- How an operator is made of the solver's functions. -/
def construction : Operator → Construction
  | negation => .unary .not
  | conjunction => .direct .and
  | disjunction => .direct .or
  | exclusiveOr => .left .xor
  | implication => .implications
  | equality => .chain .equal
  | distinctness => .direct .distinct
  | conditional => .direct .ifThenElse
  | addition => .left .plus
  | subtraction => .differences
  | multiplication => .left .times
  | realDivision | integerDivision => .left .divide
  | modulus => .binary .modulo
  | absolute => .unary .absolute
  | less => .chain .less
  | atMost => .chain .lessEqual
  | greater => .chain .greater
  | atLeast => .chain .greaterEqual
  | toReal => .unary .toReal
  | toInt => .unary .toInt
  | isInt => .unary .isInt
  | bvnot => .unary .complement
  | bvneg => .unary .opposite
  | bvand => .left .bitAnd
  | bvor => .left .bitOr
  | bvxor => .left .bitXor
  | bvadd => .left .plus
  | bvsub => .left .minus
  | bvmul => .left .times
  | bvudiv => .binary .unsignedDivide
  | bvurem => .binary .unsignedRemainder
  | bvsdiv => .binary .divide
  | bvsrem => .binary .signedRemainder
  | bvsmod => .binary .modulo
  | bvshl => .binary .shiftLeft
  | bvlshr => .binary .logicalShiftRight
  | bvashr => .binary .shiftRight
  | bvult => .binary .unsignedLess
  | bvule => .binary .unsignedLessEqual
  | bvugt => .binary .unsignedGreater
  | bvuge => .binary .unsignedGreaterEqual
  | bvslt => .binary .less
  | bvsle => .binary .lessEqual
  | bvsgt => .binary .greater
  | bvsge => .binary .greaterEqual
  | concatenation => .direct .concat
  | extraction => .indexed .extract
  | zeroExtension => .indexed .zeroExtend
  | signExtension => .indexed .signExtend
  | select => .binary .select
  | store => .direct .store
  | constantArray => .unary .constantArray
  | functionArray => .unary .functionArray
  | stringConcat => .direct .concat
  | stringLength => .unary .length
  | stringAt => .characterAt
  | substring => .direct .subString
  | prefixOf => .binary .prefixOf
  | suffixOf => .binary .suffixOf
  | stringContains => .binary .contains
  | indexOf => .direct .indexOf
  | replacement => .direct .replace
  | stringLess => .chain .less
  | stringAtMost => .chain .lessEqual
  | stringToInt | oldStringToInt => .unary .textToInt
  | stringFromInt | oldStringFromInt => .unary .intToText

def construct (operator : Operator) (indices : List Nat)
    (arguments : List Expression) (sort : SmtSort) : Expression :=
  operator.construction.build indices arguments sort

end Operator

end ModelAudit
