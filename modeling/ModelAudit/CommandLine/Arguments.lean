import ModelAudit.CommandLine.Option
import ModelAudit.Config
import ModelAudit.Validation

/-!
# Arguments

What a user asks for on the command line.
-/

namespace ModelAudit

inductive ModelSource
  | file (path : Text)
  | standardInput
deriving DecidableEq

inductive Verbosity
  | normal
  | verbose
  | quiet
deriving DecidableEq

structure Arguments where
  formula : Text
  model : ModelSource
  root : Option Text
  timeout : Option Binary64
  backend : Backend
  isabelle : Option Text
  logic : Option Text
  method : Option ProofMethod
  /-- Where the generated theory is written to. -/
  keepTheory : Option Text
  verbosity : Verbosity
deriving DecidableEq

def Arguments.settings (arguments : Arguments) : Settings :=
  { Settings.none with
    isabelle := arguments.isabelle
    logic := arguments.logic
    method := arguments.method.map ProofMethod.name
    timeout := arguments.timeout.map .real }

/-- Why no arguments are left to work with. -/
inductive ArgumentsStop
  /-- The user asks how the program is used. -/
  | help
  | usage (fault : UsageFault)
deriving DecidableEq

namespace Arguments

structure Progress where
  formula : Option Text
  model : Option ModelSource
  root : Option Text
  timeout : Option Binary64
  backend : Backend
  isabelle : Option Text
  logic : Option Text
  method : Option ProofMethod
  keepTheory : Option Text
  verbosity : Verbosity
  /-- The options given so far. -/
  given : List CommandOption
  /-- Words for which there is no use, the last one first. -/
  unused : List Text

def Progress.start : Progress where
  formula := none
  model := none
  root := none
  timeout := none
  backend := .isabelle
  isabelle := none
  logic := none
  method := none
  keepTheory := none
  verbosity := .normal
  given := []
  unused := []

def choose {Choice : Type} (option : CommandOption) (choices : List Choice)
    (name : Choice → Text) (value : Text) : Except ArgumentsStop Choice :=
  match choices.find? fun choice => name choice = value with
  | some choice => .ok choice
  | none => .error (.usage (.invalidChoice option value (choices.map name)))

/-- Gives an option its value; options without value ignore it. -/
def assign (progress : Progress) (option : CommandOption) (value : Text) :
    Except ArgumentsStop Progress :=
  match option with
  | .help => .error .help
  | .model => .ok { progress with model := some (.file value) }
  | .stdin => .ok { progress with model := some .standardInput }
  | .root => .ok { progress with root := some value }
  | .timeout =>
    match Binary64.read? value with
    | some number => .ok { progress with timeout := some number }
    | none => .error (.usage (.invalidNumber option value))
  | .backend => do
    return { progress with
      backend := ← choose option Backend.all Backend.name value }
  | .isabelle => .ok { progress with isabelle := some value }
  | .logic => .ok { progress with logic := some value }
  | .method => do
    let method ← choose option ProofMethod.all ProofMethod.name value
    return { progress with method := some method }
  | .keepTheory => .ok { progress with keepTheory := some value }
  | .verbose => .ok { progress with verbosity := .verbose }
  | .quiet => .ok { progress with verbosity := .quiet }

/-- Takes an option with its value. The value is checked before the conflict
with another option. -/
def take (progress : Progress) (option : CommandOption) (value : Text) :
    Except ArgumentsStop Progress := do
  let assigned ← assign progress option value
  match option.rival?.filter progress.given.contains with
  | some rival => .error (.usage (.conflict option rival))
  | none => return { assigned with given := option :: progress.given }

def takeAll (progress : Progress) :
    List (CommandOption × Text) → Except ArgumentsStop Progress
  | [] => .ok progress
  | (option, value) :: others =>
    do takeAll (← take progress option value) others

structure Cluster where
  options : List (CommandOption × Text)
  /-- One more option, whose value is the next word. -/
  awaiting : Option CommandOption
  /-- The end of the word that is no option. -/
  unused : List Text

def detached (option : CommandOption) : Cluster :=
  if option.takesValue then ⟨[], some option, []⟩
    else ⟨[(option, [])], none, []⟩

/-- An option of one letter and what is attached to it. If the option takes no
value, the letters attached are further options. -/
def cluster (option : CommandOption) (assigned : Bool) :
    Text → Except UsageFault Cluster
  | [] =>
    if option.takesValue then .ok ⟨[(option, [])], none, []⟩
    else .error (.ignoredValue option [])
  | letter :: letters =>
    if option.takesValue then .ok ⟨[(option, letter :: letters)], none, []⟩
    else if assigned || letter = '-'
      then .error (.ignoredValue option (letter :: letters))
    else
      match CommandOption.ofSpelling? ['-', letter] with
      | none => .ok ⟨[(option, [])], none, ['-' :: letter :: letters]⟩
      | some next => do
        let following ←
          match letters with
          | [] => .ok (detached next)
          | sign :: value =>
            if sign = '=' then cluster next true value
              else cluster next false (sign :: value)
        return { following with options := (option, []) :: following.options }

/-- The options that a word gives. Long options without value reject an attached
one. -/
def expand (given : GivenOption) : Except UsageFault Cluster :=
  match given.attached with
  | none => .ok (detached given.option)
  | some attached =>
    if given.option.takesValue
      then .ok ⟨[(given.option, attached.text)], none, []⟩
    else if given.spelling.startsWith "--" then
      .error (.ignoredValue given.option attached.text)
    else cluster given.option attached.assigned attached.text

def takeCluster (progress : Progress) (options : List (CommandOption × Text))
    (unused : List Text) : Except ArgumentsStop Progress :=
  takeAll { progress with unused := unused ++ progress.unused } options

def setAside (progress : Progress) (word : Text) : Progress :=
  { progress with unused := word :: progress.unused }

/-- Reads the words in turn. The first value is the formula; a separator next to
it has no further meaning. -/
def readWords (progress : Progress) : List CommandWord →
  Except ArgumentsStop Progress
  | [] => .ok progress
  | .unknown word :: words => readWords (setAside progress word) words
  | .plain word :: words =>
    if progress.formula.isSome then readWords (setAside progress word) words
    else
      let progress := { progress with formula := some word }
      match words with
      | .separator :: words => readWords progress words
      | words => readWords progress words
  | .separator :: words =>
    match progress.formula, words with
    | none, .plain word :: words =>
      readWords { progress with formula := some word } words
    | _, words => readWords (setAside progress "--") words
  | .given given :: words =>
    match expand given with
    | .error fault => .error (.usage fault)
    | .ok cluster =>
      match cluster.awaiting, words with
      | none, words => do
        readWords (← takeCluster progress cluster.options cluster.unused) words
      | some option, .plain value :: words => do
        let options := cluster.options ++ [(option, value)]
        readWords (← takeCluster progress options cluster.unused) words
      | some option, _ => .error (.usage (.missingValue option))

/-- The arguments, if nothing is missing and every word has been used. -/
def complete (progress : Progress) : Except UsageFault Arguments :=
  match progress.formula, progress.model with
  | none, _ => .error .missingFormula
  | _, none => .error .missingModel
  | some formula, some model =>
    if !progress.unused.isEmpty
      then .error (.unrecognized progress.unused.reverse)
    else
      let root := progress.root.filter fun path => !path.isEmpty
      if progress.backend = .isabelle && root.isNone then .error .missingRoot
      else
        .ok
          { formula, model, root
            timeout := progress.timeout
            backend := progress.backend
            isabelle := progress.isabelle
            logic := progress.logic
            method := progress.method
            keepTheory := progress.keepTheory.filter fun path => !path.isEmpty
            verbosity := progress.verbosity }

def parse (words : List Text) : Except ArgumentsStop Arguments := do
  let classified ← (CommandWord.classifyAll words).mapError .usage
  let progress ← readWords .start classified
  (complete progress).mapError .usage

end Arguments

end ModelAudit
