import ModelAudit.Hol.Helper
import ModelAudit.Hol.Term
import ModelAudit.Json.Basic
import ModelAudit.Operator

/-!
# Spellings of the operators

How each operator of SMT-LIB is written in HOL: as an infix operator, as a
function, or by a template. Applications to more than two arguments are unrolled
by association, by chaining or by pairs. A theory root may override spellings;
an overriding spelling is a parenthesised operator before its arguments.
-/

namespace ModelAudit

inductive Associativity
  | left
  | right
deriving DecidableEq

/-- Terms around the arguments of an application. -/
inductive Template
  | conditional
  | negative
  | isIntegral
  | wordConcatenation
  | wordSlice
  | zeroExtension
  | signExtension
  | select
  | store
  | constantFunction
  | itself
  | stringLength
deriving DecidableEq

/-- What a template may refer to. -/
structure TemplateFields where
  arguments : List HolTerm
  indices : List Text
  /-- The type of the application. -/
  type : HolType
  /-- The index type, if the application is an array. -/
  indexType : Option HolType

namespace Template

/-- The template around given arguments; none if some are missing. -/
def fill? (template : Template) (fields : TemplateFields) : Option HolTerm :=
  match template, fields.arguments with
  | conditional, test :: first :: second :: _ =>
    some (.conditional test first second)
  | negative, argument :: _ => some (.call "-" [argument])
  | isIntegral, argument :: _ => some (.isIntegral argument)
  | wordConcatenation, left :: right :: _ =>
    some (.typed "word_cat" [left, right] fields.type)
  | wordSlice, argument :: _ =>
    match fields.indices with
    | _ :: low :: _ =>
      some (.typed "ucast" [.call "drop_bit" [.constant low, argument]]
        fields.type)
    | _ => none
  | zeroExtension, argument :: _ => some (.typed "ucast" [argument] fields.type)
  | signExtension, argument :: _ => some (.typed "scast" [argument] fields.type)
  | select, array :: index :: _ => some (.apply array [index])
  | store, array :: index :: value :: _ => some (.update array index value)
  | constantFunction, value :: _ =>
    fields.indexType.map fun indexType => .constantFunction indexType value
  | itself, argument :: _ => some argument
  | stringLength, argument :: _ =>
    some (.call "int" [.call "length" [argument]])
  | _, _ => none

def placeholder (name : Text) : Text :=
  "\x7b" ++ name ++ "\x7d"

/-- The text of a template, with placeholders for its fields. -/
def text (template : Template) : Text :=
  let fields : TemplateFields :=
    ⟨(["0", "1", "2"] : List Text).map fun name => .name (placeholder name),
      (["i0", "i1"] : List Text).map placeholder, .named (placeholder "type"),
      some (.named (placeholder "index"))⟩
  ((template.fill? fields).map HolTerm.text).getD []

end Template

inductive Fixity
  | infixed (symbol : Text)
  | prefixed (function : Text)
  | templated (template : Template)
  /-- A parenthesised operator before its arguments. -/
  | sectioned (symbol : Text)
deriving DecidableEq

structure Spelling where
  fixity : Fixity
  associativity : Option Associativity
  /-- `(op a b c)` means that the operator holds of neighbours. -/
  chainable : Bool
  /-- `(op a b c)` means that the operator holds of all pairs. -/
  pairwise : Bool
  /-- The form of an application to one argument, if it has one of its own. -/
  single : Option Template
  helpers : List Helper
deriving DecidableEq

namespace Spelling

def infixed (symbol : Text) (associativity : Option Associativity) : Spelling :=
  ⟨.infixed symbol, associativity, false, false, none, []⟩

def chained (symbol : Text) : Spelling :=
  { infixed symbol none with chainable := true }

def prefixed (function : Text) : Spelling :=
  ⟨.prefixed function, none, false, false, none, []⟩

def templated (template : Template) : Spelling :=
  ⟨.templated template, none, false, false, none, []⟩

def helped (helper : Helper) : Spelling :=
  { prefixed helper.name with helpers := [helper] }

end Spelling

/-- The spelling of an operator unless it is overridden; the signed divisions of
bit-vectors have none. -/
def Operator.defaultSpelling? : Operator → Option Spelling
  | negation => some (.prefixed "\\<not>")
  | conjunction => some (.infixed "\\<and>" (some .right))
  | disjunction => some (.infixed "\\<or>" (some .right))
  | implication => some (.infixed "\\<longrightarrow>" (some .right))
  | exclusiveOr => some (.infixed "\\<noteq>" (some .left))
  | equality => some (.chained "=")
  | distinctness =>
    some { Spelling.infixed "\\<noteq>" none with pairwise := true }
  | conditional => some (.templated .conditional)
  | addition => some (.infixed "+" (some .left))
  | subtraction =>
    some { Spelling.infixed "-" (some .left) with single := some .negative }
  | multiplication => some (.infixed "*" (some .left))
  | realDivision => some (.infixed "/" (some .left))
  | integerDivision =>
    some { Spelling.helped .division with associativity := some .left }
  | modulus => some (.helped .modulus)
  | absolute => some (.prefixed "abs")
  | less => some (.chained "<")
  | atMost => some (.chained "\\<le>")
  | greater => some (.chained ">")
  | atLeast => some (.chained "\\<ge>")
  | toReal => some (.prefixed "real_of_int")
  | toInt => some (.prefixed "floor")
  | isInt => some (.templated .isIntegral)
  | bvnot => some (.prefixed "Bit_Operations.not")
  | bvneg => some (.templated .negative)
  | bvand =>
    some { Spelling.prefixed "Bit_Operations.and" with
      associativity := some .left }
  | bvor =>
    some { Spelling.prefixed "Bit_Operations.or" with
      associativity := some .left }
  | bvxor =>
    some { Spelling.prefixed "Bit_Operations.xor" with
      associativity := some .left }
  | bvadd => some (.infixed "+" (some .left))
  | bvsub => some (.infixed "-" (some .left))
  | bvmul => some (.infixed "*" (some .left))
  | bvudiv => some (.helped .bvudiv)
  | bvurem => some (.helped .bvurem)
  | bvsdiv | bvsrem | bvsmod => none
  | bvshl => some (.helped .bvshl)
  | bvlshr => some (.helped .bvlshr)
  | bvashr => some (.helped .bvashr)
  | bvult => some (.infixed "<" none)
  | bvule => some (.infixed "\\<le>" none)
  | bvugt => some (.infixed ">" none)
  | bvuge => some (.infixed "\\<ge>" none)
  | bvslt => some (.prefixed "word_sless")
  | bvsle => some (.prefixed "word_sle")
  | bvsgt => some (.helped .bvsgt)
  | bvsge => some (.helped .bvsge)
  | concatenation => some (.templated .wordConcatenation)
  | extraction => some (.templated .wordSlice)
  | zeroExtension => some (.templated .zeroExtension)
  | signExtension => some (.templated .signExtension)
  | select => some (.templated .select)
  | store => some (.templated .store)
  | constantArray => some (.templated .constantFunction)
  | functionArray => some (.templated .itself)
  | stringConcat => some (.infixed "@" (some .left))
  | stringLength => some (.templated .stringLength)
  | stringAt => some (.helped .stringAt)
  | substring => some (.helped .substring)
  | prefixOf => some (.helped .prefixOf)
  | suffixOf => some (.helped .suffixOf)
  | stringContains => some (.helped .stringContains)
  | indexOf => some (.helped .indexOf)
  | replacement => some (.helped .replacement)
  | stringLess => some { Spelling.helped .stringLess with chainable := true }
  | stringAtMost =>
    some { Spelling.helped .stringAtMost with chainable := true }
  | stringToInt | oldStringToInt => some (.helped .stringToInt)
  | stringFromInt | oldStringFromInt => some (.helped .stringFromInt)

/-- A spelling from a theory root. Its operator and its association may be any
values other than null; only the association `right` has a special meaning. -/
structure Override where
  symbol : Json
  associativity : Json
  chainable : Bool

/-- Absent and null associations leave all arguments behind the operator, and
any association but `right` counts as one to the left. -/
def Override.spelling (override : Override) : Spelling :=
  let associativity :=
    match override.associativity with
    | .null => none
    | .string name => some (if name = ("right" : Text) then .right else .left)
    | _ => some .left
  ⟨.sectioned override.symbol.plain, associativity, override.chainable, false,
    none, []⟩

inductive SpellingEntry
  | given (spelling : Spelling)
  | overridden (override : Override)
  /-- The operator has no counterpart. -/
  | disabled

def SpellingEntry.spelling? : SpellingEntry → Option Spelling
  | given spelling => some spelling
  | overridden override => some override.spelling
  | disabled => none

abbrev OperatorTable := Operator → SpellingEntry

namespace OperatorTable

def default : OperatorTable := fun operator =>
  match operator.defaultSpelling? with
  | some spelling => .given spelling
  | none => .disabled

def set (table : OperatorTable) (operator : Operator) (entry : SpellingEntry) :
    OperatorTable := fun other =>
  if other = operator then entry else table other

/-- Why overrides cannot be applied: some value has not the shape that it
should have. -/
inductive OverrideFault
  | notAnObject
deriving DecidableEq

def members : Json → Except OverrideFault (List (Text × Json))
  | .object members => .ok members
  | _ => .error .notAnObject

/-- What one entry makes of an operator: an entry without operator text disables
the operator. -/
def readEntry (entry : Json) : Except OverrideFault SpellingEntry := do
  let fields ← members entry
  let symbol := (Table.find? fields "mapsto").getD .null
  if symbol.isNull then return .disabled
  else
    return .overridden
      ⟨symbol, (Table.find? fields "assoc").getD .null,
        ((Table.find? fields "chainable").getD (.bool false)).isYes⟩

/-- Applies entries in turn. Entries of unknown operators are skipped unread.
What was applied before a fault stays. -/
def applyEntries (table : OperatorTable) :
    List (Text × Json) → Option OverrideFault × OperatorTable
  | [] => (none, table)
  | (name, entry) :: entries =>
    match Operator.ofName? name with
    | none => applyEntries table entries
    | some operator =>
      match readEntry entry with
      | .ok spelling => applyEntries (table.set operator spelling) entries
      | .error fault => (some fault, table)

/-- Applies the entries of one theory after the other. -/
def applyTheories (table : OperatorTable) :
    List (Text × Json) → Option OverrideFault × OperatorTable
  | [] => (none, table)
  | (_, entries) :: theories =>
    match members entries with
    | .error fault => (some fault, table)
    | .ok entries =>
      match table.applyEntries entries with
      | (none, table) => applyTheories table theories
      | (some fault, table) => (some fault, table)

/-- Applies overrides: an object whose member `specs` maps theories to operators
to entries. Without such a member nothing is overridden. -/
def applyOverrides (table : OperatorTable) (overrides : Json) :
    Option OverrideFault × OperatorTable :=
  match members overrides with
  | .error fault => (some fault, table)
  | .ok fields =>
    let specs := (Table.find? fields "specs").getD .null
    if specs.isYes then
      match members specs with
      | .error fault => (some fault, table)
      | .ok theories => table.applyTheories theories
    else (none, table)

end OperatorTable

end ModelAudit
