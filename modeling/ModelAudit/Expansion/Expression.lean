import ModelAudit.Script.Term

/-!
# Expressions of the solver

An expression is what a solver is given for a term in which definitions have
been unfolded. It is made by the functions of the solver's interface. Bound
variables are counted from the innermost binder outwards, so no name of a binder
is left that could capture another one.
-/

namespace ModelAudit

/-- The functions that make an expression of others. -/
inductive SolverFunction
  | not
  | and
  | or
  | xor
  | implies
  | equal
  | distinct
  | ifThenElse
  | plus
  | minus
  /-- A minus sign before a single operand. -/
  | opposite
  | times
  | divide
  | modulo
  | absolute
  | less
  | lessEqual
  | greater
  | greaterEqual
  | toReal
  | toInt
  | isInt
  | complement
  | bitAnd
  | bitOr
  | bitXor
  | unsignedDivide
  | unsignedRemainder
  | signedRemainder
  | shiftLeft
  | shiftRight
  | logicalShiftRight
  | unsignedLess
  | unsignedLessEqual
  | unsignedGreater
  | unsignedGreaterEqual
  | concat
  | extract
  | zeroExtend
  | signExtend
  | select
  | store
  /-- The array with one value at every index. -/
  | constantArray
  /-- The array that a function is. -/
  | functionArray
  | length
  | subString
  | prefixOf
  | suffixOf
  | contains
  | indexOf
  | replace
  | textToInt
  | intToText
deriving DecidableEq

/-- The operator of SMT-LIB that a function stands for. Some functions are
overloaded: the sort of the first operand decides which operator is meant. -/
def SolverFunction.operator (function : SolverFunction)
    (operands : List SmtSort) : Operator :=
  let operand := operands.headD .bool
  let overloaded (onBits onStrings onNumbers : Operator) : Operator :=
    if operand.width?.isSome then onBits
    else if operand = .string then onStrings
    else onNumbers
  match function with
  | not => .negation
  | and => .conjunction
  | or => .disjunction
  | xor => .exclusiveOr
  | implies => .implication
  | equal => .equality
  | distinct => .distinctness
  | ifThenElse => .conditional
  | plus => overloaded .bvadd .stringConcat .addition
  | minus => overloaded .bvsub .subtraction .subtraction
  | opposite => overloaded .bvneg .subtraction .subtraction
  | times => overloaded .bvmul .multiplication .multiplication
  | divide =>
    let onNumbers := if operand = .int then .integerDivision else .realDivision
    overloaded .bvsdiv onNumbers onNumbers
  | modulo => overloaded .bvsmod .modulus .modulus
  | absolute => .absolute
  | less => overloaded .bvslt .stringLess .less
  | lessEqual => overloaded .bvsle .stringAtMost .atMost
  | greater => overloaded .bvsgt .greater .greater
  | greaterEqual => overloaded .bvsge .atLeast .atLeast
  | toReal => .toReal
  | toInt => .toInt
  | isInt => .isInt
  | complement => .bvnot
  | bitAnd => .bvand
  | bitOr => .bvor
  | bitXor => .bvxor
  | unsignedDivide => .bvudiv
  | unsignedRemainder => .bvurem
  | signedRemainder => .bvsrem
  | shiftLeft => .bvshl
  | shiftRight => .bvashr
  | logicalShiftRight => .bvlshr
  | unsignedLess => .bvult
  | unsignedLessEqual => .bvule
  | unsignedGreater => .bvugt
  | unsignedGreaterEqual => .bvuge
  | concat => overloaded .concatenation .stringConcat .stringConcat
  | extract => .extraction
  | zeroExtend => .zeroExtension
  | signExtend => .signExtension
  | select => .select
  | store => .store
  | constantArray => .constantArray
  | functionArray => .functionArray
  | length => .stringLength
  | subString => .substring
  | prefixOf => .prefixOf
  | suffixOf => .suffixOf
  | contains => .stringContains
  | indexOf => .indexOf
  | replace => .replacement
  | textToInt => .stringToInt
  | intToText => .stringFromInt

/-- The values that the solver has constants for. -/
inductive SolverConstant
  | bool (value : Bool)
  | int (value : Nat)
  /-- A real number, as written. -/
  | real (written : Text)
  | bitVec (value width : Nat)
  | string (contents : Text)
deriving DecidableEq

/-- The literal of SMT-LIB that a constant stands for. -/
def SolverConstant.literal : SolverConstant → Literal
  | bool value => .bool value
  | int value => .integer value
  | real written => .decimal written
  | bitVec value width => .bitVector value width
  | string contents => .string contents

inductive Expression
  | value (given : SolverConstant)
  /-- The variable with this many others bound inside its own binder. -/
  | bound (index : Nat) (sort : SmtSort)
  /-- A constant without definition. -/
  | constant (name : Text) (sort : SmtSort)
  /-- A function without definition and its arguments. -/
  | application (function : Text) (arguments : List Expression) (sort : SmtSort)
  | operation (function : SolverFunction) (indices : List Nat)
      (arguments : List Expression) (sort : SmtSort)
  /-- Binds variables to values that do not see each other; the last one is the
  innermost. -/
  | letIn (values : List Expression) (body : Expression)
  /-- Binds a variable of each sort; the last one is the innermost. -/
  | quantified (quantifier : Quantifier) (sorts : List SmtSort)
      (body : Expression)
  /-- The array with the value of the body at each index, which the body refers
  to as its innermost variable. -/
  | arrayOf (index element : SmtSort) (body : Expression)

namespace Expression

def sort : Expression → SmtSort
  | value given => given.literal.sort
  | bound _ sort => sort
  | constant _ sort => sort
  | application _ _ sort => sort
  | operation _ _ _ sort => sort
  | letIn _ body => body.sort
  | quantified _ _ _ => .bool
  | arrayOf index element _ => .array index element

end Expression

end ModelAudit
