import ModelAudit.Number.Quantity
import ModelAudit.Number.Reading
import ModelAudit.Text.Quoted

/-!
# Configuration

How theories are written and how Isabelle is started. Settings that are left out
keep their defaults; variables of the environment come before defaults, and
explicit settings before both.
-/

namespace ModelAudit

inductive ProofMethod
  | simp
  | auto
deriving DecidableEq

namespace ProofMethod

def name : ProofMethod → Text
  | simp => "simp"
  | auto => "auto"

def all : List ProofMethod :=
  [.simp, .auto]

def ofName? (name : Text) : Option ProofMethod :=
  all.find? fun method => method.name = name

end ProofMethod

structure Config where
  /-- The Isabelle executable. -/
  isabelle : Text
  /-- The session that provides the heap image. -/
  logic : Text
  imports : List Text
  theoryName : Text
  method : ProofMethod
  /-- The time limit in seconds, which is not zero or less. -/
  timeout : Quantity
  options : List Text
deriving DecidableEq

/-- Settings before they are checked; none stands for the default. -/
structure Settings where
  isabelle : Option Text
  logic : Option Text
  imports : Option (List Text)
  theoryName : Option Text
  method : Option Text
  timeout : Option Quantity
  options : Option (List Text)

inductive ConfigFault
  | unknownMethod (name : Text)
  | timeoutNotPositive (timeout : Quantity)
  /-- A variable of the environment should hold a number. -/
  | timeoutNotANumber (value : Text)
deriving DecidableEq

def ConfigFault.message : ConfigFault → Text
  | unknownMethod name =>
    "Unknown proof method " ++ name.quoted ++ " (expected one of " ++
      Text.join ", " (ProofMethod.all.map ProofMethod.name) ++ ")"
  | timeoutNotPositive timeout =>
    "Timeout must be positive, got " ++ timeout.text
  | timeoutNotANumber value => "SMTMV_TIMEOUT is not a number: " ++ value.quoted

namespace Settings

def none : Settings :=
  ⟨.none, .none, .none, .none, .none, .none, .none⟩

/-- The first settings, completed by the second ones. -/
def orElse (first second : Settings) : Settings :=
  ⟨first.isabelle.or second.isabelle, first.logic.or second.logic,
    first.imports.or second.imports, first.theoryName.or second.theoryName,
    first.method.or second.method, first.timeout.or second.timeout,
    first.options.or second.options⟩

def isabelleVariable : Text :=
  "SMTMV_ISABELLE"

def logicVariable : Text :=
  "SMTMV_LOGIC"

def timeoutVariable : Text :=
  "SMTMV_TIMEOUT"

def variableNames : List Text :=
  [isabelleVariable, logicVariable, timeoutVariable]

/-- A variable's value, unless it is absent or empty. -/
def value? (environment : Text → Option Text) (name : Text) : Option Text :=
  (environment name).filter fun value => !value.isEmpty

def ofEnvironment (environment : Text → Option Text) :
    Except ConfigFault Settings :=
  let settings : Settings :=
    { Settings.none with
      isabelle := value? environment isabelleVariable
      logic := value? environment logicVariable }
  match value? environment timeoutVariable with
  | .none => .ok settings
  | some value =>
    match Binary64.read? value with
    | some number => .ok { settings with timeout := some (.real number) }
    | .none => .error (.timeoutNotANumber value)

end Settings

namespace Config

def defaultOptions : List Text :=
  ["build_pide_reports=false", "pide_reports=false", "process_output_limit=1",
    "process_output_tail=1", "record_proofs=0", "parallel_proofs=0",
    "quick_and_dirty"]

def default : Config :=
  ⟨"isabelle", "HOL-Library", ["Main", "HOL-Library.Word"], "Validation", .simp,
    .real (.ofInt 60), defaultOptions⟩

/-- The configuration with the given settings. The method is checked before the
time limit. -/
def ofSettings (settings : Settings) : Except ConfigFault Config := do
  let method ←
    match settings.method with
    | none => .ok default.method
    | some name =>
      match ProofMethod.ofName? name with
      | some method => .ok method
      | none => .error (.unknownMethod name)
  let timeout := settings.timeout.getD default.timeout
  if timeout.isAtMostZero then .error (.timeoutNotPositive timeout)
  return ⟨settings.isabelle.getD default.isabelle,
    settings.logic.getD default.logic, settings.imports.getD default.imports,
    settings.theoryName.getD default.theoryName, method, timeout,
    settings.options.getD default.options⟩

/-- The configuration from explicit settings, the environment and defaults. -/
def ofEnvironment (environment : Text → Option Text) (settings : Settings) :
    Except ConfigFault Config := do
  let surrounding ← Settings.ofEnvironment environment
  ofSettings (settings.orElse surrounding)

/-- The command that checks the theory in the current directory, with the
sessions of a root directory. -/
def command (config : Config) (root : Text) : List Text :=
  let start : List Text :=
    [config.isabelle, "process", "-d", root, "-l", config.logic]
  let options : List Text :=
    config.options.flatMap fun option => [Text.ofString "-o", option]
  let theory : List Text := ["-T", config.theoryName]
  start ++ options ++ theory

end Config

end ModelAudit
