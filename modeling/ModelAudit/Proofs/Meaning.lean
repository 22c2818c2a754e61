import Mathlib.Data.List.Chain
import ModelAudit.Proofs.ScopeAgreement
import ModelAudit.Proofs.WellSorted

/-!
# What terms mean

The values of terms of SMT-LIB and of HOL, as far as truth values, integers and
uninterpreted symbols go. Sorts and types other than those of truth values and
integers range over elements without structure. A term has no value if it is ill
sorted or built otherwise.
-/

namespace ModelAudit

/-- The values that terms of SMT-LIB and of HOL have in common. -/
inductive CommonValue (Element : Type)
  | truth (holds : Prop)
  | number (value : Int)
  | element (value : Element)

namespace CommonValue

variable {Element : Type}

def truth? : CommonValue Element → Option Prop
  | truth holds => some holds
  | _ => none

def number? : CommonValue Element → Option Int
  | number value => some value
  | _ => none

open Classical in
noncomputable def choose (test : Prop) (first second : CommonValue Element) :
    CommonValue Element :=
  if test then first else second

/-- The variables of a quantifier range over the domains. -/
def Ranges (domains : List (CommonValue Element → Prop))
    (values : List (CommonValue Element)) : Prop :=
  List.Forall₂ (fun domain value => domain value) domains values

/-- Whether a quantified body is true, for all or for some values. -/
def quantified (domains : List (CommonValue Element → Prop))
    (body : List (CommonValue Element) → Option (CommonValue Element)) :
    Quantifier → Prop
  | .universal =>
    ∀ values, Ranges domains values → body values = some (truth True)
  | .existential =>
    ∃ values, Ranges domains values ∧ body values = some (truth True)

open Classical in
/-- The value of a quantifier over variables with the given domains; none if the
body is no truth value for some of their values. -/
noncomputable def quantify (quantifier : Quantifier)
    (domains : List (CommonValue Element → Prop))
    (body : List (CommonValue Element) → Option (CommonValue Element)) :
    Option (CommonValue Element) :=
  if ∀ values, Ranges domains values → ∃ holds, body values = some (truth holds)
    then
    some (truth (quantified domains body quantifier))
  else none

end CommonValue

/-! ## SMT-LIB -/

/-- An interpretation of the sorts and of the declared symbols. -/
structure Interpretation (Element : Type) (symbols : SymbolTable) where
  carrier : SmtSort → CommonValue Element → Prop
  function : Text → List (CommonValue Element) → CommonValue Element
  truths : ∀ value, carrier .bool value ↔ ∃ holds, value = .truth holds
  integers : ∀ value, carrier .int value ↔ ∃ number, value = .number number
  /-- Functions keep to their signatures. -/
  signature : ∀ name arguments result values,
      symbols.HasSignature name arguments result →
    List.Forall₂ carrier arguments values →
    carrier result (function name values)

section SmtLib

variable {Element : Type}

def nestRight {Value : Type} (combine : Value → Value → Value) :
    Value → List Value → Value
  | last, [] => last
  | first, next :: others => combine first (nestRight combine next others)

namespace Operator

def isCore : Operator → Bool
  | negation | conjunction | disjunction | exclusiveOr | implication | equality
  | distinctness | conditional => true
  | _ => false

def isInts : Operator → Bool
  | addition | subtraction | multiplication | integerDivision | modulus
  | absolute
  | less | atMost | greater | atLeast => true
  | _ => false

def onTruths (values : List (CommonValue Element))
    (combine : Prop → List Prop → Prop) : Option (CommonValue Element) := do
  match ← values.mapM CommonValue.truth? with
  | [] => none
  | first :: others => return .truth (combine first others)

def onNumbers (values : List (CommonValue Element))
    (combine : Int → List Int → Int) : Option (CommonValue Element) := do
  match ← values.mapM CommonValue.number? with
  | [] => none
  | first :: others => return .number (combine first others)

def onNeighbours (values : List (CommonValue Element))
    (related : Int → Int → Prop) : Option (CommonValue Element) := do
  let numbers ← values.mapM CommonValue.number?
  return .truth (numbers.IsChain related)

/-- What an operator of Core or Ints makes of its arguments. Division rounds so
that the remainder is not negative, and a division by zero yields zero. -/
noncomputable def meaning (operator : Operator)
    (values : List (CommonValue Element)) : Option (CommonValue Element) :=
  match operator with
  | negation =>
    match values with
    | [.truth holds] => some (.truth ¬holds)
    | _ => none
  | conjunction =>
    onTruths values fun first others => ∀ holds ∈ first :: others, holds
  | disjunction =>
    onTruths values fun first others => ∃ holds ∈ first :: others, holds
  | exclusiveOr =>
    onTruths values fun first others =>
      others.foldl (fun left right => ¬(left ↔ right)) first
  | implication =>
    onTruths values (nestRight fun premise conclusion => premise → conclusion)
  | equality => some (.truth (values.IsChain (· = ·)))
  | distinctness => some (.truth (values.Pairwise (· ≠ ·)))
  | conditional =>
    match values with
    | [.truth test, first, second] => some (.choose test first second)
    | _ => none
  | addition => onNumbers values fun first others => others.foldl (· + ·) first
  | subtraction =>
    onNumbers values fun first others =>
      if others.isEmpty then -first else others.foldl (· - ·) first
  | multiplication =>
    onNumbers values fun first others => others.foldl (· * ·) first
  | integerDivision =>
    onNumbers values fun first others => others.foldl (· / ·) first
  | modulus =>
    match values with
    | [.number dividend, .number divisor] => some (.number (dividend % divisor))
    | _ => none
  | absolute =>
    match values with
    | [.number value] => some (.number value.natAbs)
    | _ => none
  | less => onNeighbours values (· < ·)
  | atMost => onNeighbours values (· ≤ ·)
  | greater => onNeighbours values (· > ·)
  | atLeast => onNeighbours values (· ≥ ·)
  | _ => none

end Operator

namespace Term

variable {symbols : SymbolTable}

mutual

/-- The value of a term, given the values of the binders around, the last one
first. All bound terms of a let are evaluated outside of it. -/
noncomputable def value (interpretation : Interpretation Element symbols)
    (environment : Table (CommonValue Element)) :
    Term → Option (CommonValue Element)
  | .literal (.bool value) => some (.truth (value = true))
  | .literal (.integer value) => some (.number value)
  | .literal _ => none
  | .symbol name _ =>
    some ((environment.find? name).getD (interpretation.function name []))
  | .functionArray _ _ _ => none
  | .application head _ arguments _ => do
    let values ← valueAll interpretation environment arguments
    match head with
    | .function name => return interpretation.function name values
    | .operator operator => operator.meaning values
  | .letIn bindings body => do
    let values ← valueBindings interpretation environment bindings
    value interpretation (environment.enter (bindings.map Prod.fst) values) body
  | .quantified quantifier binders body =>
    CommonValue.quantify quantifier
      (binders.map fun binder => interpretation.carrier binder.snd)
      fun values =>
        value interpretation
          (environment.enter (binders.map Prod.fst) values) body
  | .annotated inner _ => value interpretation environment inner

noncomputable def valueAll (interpretation : Interpretation Element symbols)
    (environment : Table (CommonValue Element)) :
    List Term → Option (List (CommonValue Element))
  | [] => some []
  | first :: others => do
    let head ← value interpretation environment first
    let tail ← valueAll interpretation environment others
    return head :: tail

noncomputable def valueBindings
    (interpretation : Interpretation Element symbols)
    (environment : Table (CommonValue Element)) :
    List (Text × Term) → Option (List (CommonValue Element))
  | [] => some []
  | (_, bound) :: others => do
    let head ← value interpretation environment bound
    let tail ← valueBindings interpretation environment others
    return head :: tail

end

mutual

/-- Whether a term is built from literals of Core and Ints, from names, and from
the operators of these theories; the arithmetical ones are applied to
integers. -/
def inCoreInts : Term → Bool
  | .literal (.bool _) | .literal (.integer _) | .symbol _ _ => true
  | .literal _ | .functionArray _ _ _ => false
  | .application head _ arguments _ =>
    (match head with
      | .function _ => true
      | .operator operator =>
        operator.isCore || operator.isInts && arguments.all fun term =>
          term.sort = .int) &&
      allInCoreInts arguments
  | .letIn bindings body => boundInCoreInts bindings && inCoreInts body
  | .quantified _ _ body => inCoreInts body
  | .annotated inner _ => inCoreInts inner

def allInCoreInts : List Term → Bool
  | [] => true
  | first :: others => inCoreInts first && allInCoreInts others

def boundInCoreInts : List (Text × Term) → Bool
  | [] => true
  | (_, bound) :: others => inCoreInts bound && boundInCoreInts others

end

end Term

end SmtLib

/-! ## HOL -/

/-- The meaning of types and of the identifiers that a lemma fixes. -/
structure HolInterpretation (Element : Type) where
  domain : HolType → CommonValue Element → Prop
  function : Text → List (CommonValue Element) → CommonValue Element

section Hol

variable {Element : Type}

namespace Helper

def quotient (dividend divisor : Int) : Int :=
  if 0 ≤ divisor then dividend.fdiv divisor else -(dividend.fdiv (-divisor))

def remainder (dividend divisor : Int) : Int :=
  dividend - divisor * quotient dividend divisor

end Helper

/-- The constants of HOL and the helpers that translations apply. -/
def holConstants :
    Table (List (CommonValue Element) → Option (CommonValue Element)) :=
  [("True", fun | [] => some (.truth True) | _ => none),
    ("False", fun | [] => some (.truth False) | _ => none),
    ("\\<not>", fun | [.truth holds] => some (.truth ¬holds) | _ => none),
    ("-", fun | [.number value] => some (.number (-value)) | _ => none),
    ("abs", fun | [.number value] => some (.number value.natAbs) | _ => none),
    (Helper.division.name, fun
      | [.number dividend, .number divisor] =>
        some (.number (Helper.quotient dividend divisor))
      | _ => none),
    (Helper.modulus.name, fun
      | [.number dividend, .number divisor] =>
        some (.number (Helper.remainder dividend divisor))
      | _ => none)]

/-- The connectives and relations of HOL that stand between their arguments. -/
def holInfixes :
    Table (CommonValue Element → CommonValue Element →
      Option (CommonValue Element)) :=
  let onTruths (combine : Prop → Prop → Prop)
      (left right : CommonValue Element) : Option (CommonValue Element) := do
    return .truth (combine (← left.truth?) (← right.truth?))
  let onNumbers (combine : Int → Int → CommonValue Element)
      (left right : CommonValue Element) : Option (CommonValue Element) := do
    return combine (← left.number?) (← right.number?)
  [("\\<and>", onTruths And),
    ("\\<or>", onTruths Or),
    ("\\<longrightarrow>", onTruths fun left right => left → right),
    ("=", fun left right => some (.truth (left = right))),
    ("\\<noteq>", fun left right => some (.truth (left ≠ right))),
    ("+", onNumbers fun left right => .number (left + right)),
    ("-", onNumbers fun left right => .number (left - right)),
    ("*", onNumbers fun left right => .number (left * right)),
    ("<", onNumbers fun left right => .truth (left < right)),
    ("\\<le>", onNumbers fun left right => .truth (left ≤ right)),
    (">", onNumbers fun left right => .truth (left > right)),
    ("\\<ge>", onNumbers fun left right => .truth (left ≥ right))]

/-- The quantifier that a binder is; an abstraction is none. -/
def HolBinder.quantifier? : HolBinder → Option Quantifier
  | universal => some .universal
  | existential => some .existential
  | abstraction => none

/-- What an identifier applied to arguments denotes: the nearest binder of the
identifier, else a constant, else what the lemma fixes. -/
def HolInterpretation.apply (interpretation : HolInterpretation Element)
    (environment : Table (CommonValue Element)) (identifier : Text)
    (arguments : List (CommonValue Element)) : Option (CommonValue Element) :=
  match environment.find? identifier with
  | some value => if arguments.isEmpty then some value else none
  | none =>
    match holConstants.find? identifier with
    | some constant => constant arguments
    | none => some (interpretation.function identifier arguments)

namespace HolTerm

mutual

/-- The value of a term, given the values of the binders around, the last one
first. Each equation of a let is evaluated inside those before it. -/
noncomputable def value (interpretation : HolInterpretation Element)
    (environment : Table (CommonValue Element)) :
    HolTerm → Option (CommonValue Element)
  | name identifier | constant identifier =>
    interpretation.apply environment identifier []
  | numeral digits type =>
    if type = .int then some (.number (Text.decimalValue digits)) else none
  | apply function arguments => do
    let values ← valueAll interpretation environment arguments
    match function with
    | name identifier | constant identifier =>
      interpretation.apply environment identifier values
    | _ => none
  | operation symbol left right => do
    let connective ← holInfixes.find? symbol
    let leftValue ← value interpretation environment left
    let rightValue ← value interpretation environment right
    connective leftValue rightValue
  | conjunction parts => do
    let values ← valueAll interpretation environment parts
    let truths ← values.mapM CommonValue.truth?
    return .truth (∀ holds ∈ truths, holds)
  | conditional test first second => do
    let holds ← (← value interpretation environment test).truth?
    let firstValue ← value interpretation environment first
    let secondValue ← value interpretation environment second
    return .choose holds firstValue secondValue
  | letIn equations body => do
    let inner ← enterEquations interpretation environment equations
    value interpretation inner body
  | bound binder names body => do
    let quantifier ← binder.quantifier?
    CommonValue.quantify quantifier
      (names.map fun entry => interpretation.domain entry.snd)
      fun values =>
        value interpretation
          (environment.enter (names.map Prod.fst) values) body
  | _ => none

noncomputable def valueAll (interpretation : HolInterpretation Element)
    (environment : Table (CommonValue Element)) :
    List HolTerm → Option (List (CommonValue Element))
  | [] => some []
  | first :: others => do
    let head ← value interpretation environment first
    let tail ← valueAll interpretation environment others
    return head :: tail

/-- The environment inside the equations of a let. -/
noncomputable def enterEquations (interpretation : HolInterpretation Element)
    (environment : Table (CommonValue Element)) :
    List (Text × HolTerm) → Option (Table (CommonValue Element))
  | [] => some environment
  | (identifier, term) :: others => do
    let bound ← value interpretation environment term
    enterEquations interpretation ((identifier, bound) :: environment) others

end

end HolTerm

/-- The HOL interpretation reads types and identifiers as the interpretation
reads the sorts and symbols that they stand for. -/
structure HolInterpretation.Reads {symbols : SymbolTable}
    (reading : HolInterpretation Element)
    (interpretation : Interpretation Element symbols) :
    Prop where
  domain : ∀ sort type, sort.Ground symbols.userSorts →
    sort.toHol symbols.userSorts = .ok type →
    ∀ value, reading.domain type value ↔ interpretation.carrier sort value
  function : ∀ name ∈ symbols.declarations.names,
    reading.function (Identifier.escape name) = interpretation.function name

end Hol

end ModelAudit
