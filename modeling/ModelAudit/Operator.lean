import ModelAudit.Text.Basic

/-!
# The built-in operators of SMT-LIB

The operators of the Core, Ints, Reals, FixedSizeBitVectors, ArraysEx and
Strings theories that are read, with the names that scripts use for them.
-/

namespace ModelAudit

inductive Operator
  | negation
  | conjunction
  | disjunction
  | exclusiveOr
  | implication
  | equality
  | distinctness
  | conditional
  | addition
  | subtraction
  | multiplication
  | realDivision
  | integerDivision
  | modulus
  | absolute
  | less
  | atMost
  | greater
  | atLeast
  | toReal
  | toInt
  | isInt
  | bvnot
  | bvneg
  | bvand
  | bvor
  | bvxor
  | bvadd
  | bvsub
  | bvmul
  | bvudiv
  | bvurem
  | bvsdiv
  | bvsrem
  | bvsmod
  | bvshl
  | bvlshr
  | bvashr
  | bvult
  | bvule
  | bvugt
  | bvuge
  | bvslt
  | bvsle
  | bvsgt
  | bvsge
  | concatenation
  | extraction
  | zeroExtension
  | signExtension
  | select
  | store
  /-- The array with one value at every index, written `((as const S) v)`. -/
  | constantArray
  /-- The array that a unary function is, written `(_ as-array f)`. -/
  | functionArray
  | stringConcat
  | stringLength
  | stringAt
  | substring
  | prefixOf
  | suffixOf
  | stringContains
  | indexOf
  | replacement
  | stringLess
  | stringAtMost
  | stringToInt
  | stringFromInt
  /-- The name of `stringToInt` before SMT-LIB 2.6. -/
  | oldStringToInt
  /-- The name of `stringFromInt` before SMT-LIB 2.6. -/
  | oldStringFromInt
deriving DecidableEq

namespace Operator

def name : Operator → Text
  | negation => "not"
  | conjunction => "and"
  | disjunction => "or"
  | exclusiveOr => "xor"
  | implication => "=>"
  | equality => "="
  | distinctness => "distinct"
  | conditional => "ite"
  | addition => "+"
  | subtraction => "-"
  | multiplication => "*"
  | realDivision => "/"
  | integerDivision => "div"
  | modulus => "mod"
  | absolute => "abs"
  | less => "<"
  | atMost => "<="
  | greater => ">"
  | atLeast => ">="
  | toReal => "to_real"
  | toInt => "to_int"
  | isInt => "is_int"
  | bvnot => "bvnot"
  | bvneg => "bvneg"
  | bvand => "bvand"
  | bvor => "bvor"
  | bvxor => "bvxor"
  | bvadd => "bvadd"
  | bvsub => "bvsub"
  | bvmul => "bvmul"
  | bvudiv => "bvudiv"
  | bvurem => "bvurem"
  | bvsdiv => "bvsdiv"
  | bvsrem => "bvsrem"
  | bvsmod => "bvsmod"
  | bvshl => "bvshl"
  | bvlshr => "bvlshr"
  | bvashr => "bvashr"
  | bvult => "bvult"
  | bvule => "bvule"
  | bvugt => "bvugt"
  | bvuge => "bvuge"
  | bvslt => "bvslt"
  | bvsle => "bvsle"
  | bvsgt => "bvsgt"
  | bvsge => "bvsge"
  | concatenation => "concat"
  | extraction => "extract"
  | zeroExtension => "zero_extend"
  | signExtension => "sign_extend"
  | select => "select"
  | store => "store"
  | constantArray => "const"
  | functionArray => "as-array"
  | stringConcat => "str.++"
  | stringLength => "str.len"
  | stringAt => "str.at"
  | substring => "str.substr"
  | prefixOf => "str.prefixof"
  | suffixOf => "str.suffixof"
  | stringContains => "str.contains"
  | indexOf => "str.indexof"
  | replacement => "str.replace"
  | stringLess => "str.<"
  | stringAtMost => "str.<="
  | stringToInt => "str.to_int"
  | stringFromInt => "str.from_int"
  | oldStringToInt => "str.to.int"
  | oldStringFromInt => "int.to.str"

def all : List Operator :=
  [.negation, .conjunction, .disjunction, .exclusiveOr, .implication, .equality,
    .distinctness, .conditional, .addition, .subtraction, .multiplication,
    .realDivision, .integerDivision, .modulus, .absolute, .less, .atMost,
    .greater, .atLeast, .toReal, .toInt, .isInt, .bvnot, .bvneg, .bvand, .bvor,
    .bvxor, .bvadd, .bvsub, .bvmul, .bvudiv, .bvurem, .bvsdiv, .bvsrem, .bvsmod,
    .bvshl, .bvlshr, .bvashr, .bvult, .bvule, .bvugt, .bvuge, .bvslt, .bvsle,
    .bvsgt, .bvsge, .concatenation, .extraction, .zeroExtension, .signExtension,
    .select, .store, .constantArray, .functionArray, .stringConcat,
    .stringLength, .stringAt, .substring, .prefixOf, .suffixOf, .stringContains,
    .indexOf, .replacement, .stringLess, .stringAtMost, .stringToInt,
    .stringFromInt, .oldStringToInt, .oldStringFromInt]

def ofName? (name : Text) : Option Operator :=
  all.find? fun operator => operator.name = name

/-- Whether scripts use the operator by its plain name, with arguments. The two
array forms have a notation of their own. -/
def isPlain : Operator → Bool
  | constantArray | functionArray => false
  | _ => true

/-- The operator that a plain name stands for when it is applied. -/
def ofPlainName? (name : Text) : Option Operator :=
  (ofName? name).filter isPlain

end Operator

/-- The truth values, which are written as names. -/
def truthValue? (name : Text) : Option Bool :=
  if name = ("true" : Text) then some true
  else if name = ("false" : Text) then some false
  else none

/-- Names that a script can neither declare nor define. -/
def isBuiltinName (name : Text) : Bool :=
  (Operator.ofName? name).isSome || (truthValue? name).isSome

end ModelAudit
