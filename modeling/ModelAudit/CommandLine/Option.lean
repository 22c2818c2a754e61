import ModelAudit.Text.Digit
import ModelAudit.Text.Quoted

/-!
# Options and words of a command line

A word is an option, the mark `--` after which no options follow, or a plain
value. Long options may be shortened as long as they stay unique, and a value
may be attached to an option.
-/

namespace ModelAudit

inductive CommandOption
  | help
  | model
  | stdin
  | root
  | timeout
  | backend
  | isabelle
  | logic
  | method
  | keepTheory
  | verbose
  | quiet
deriving DecidableEq

namespace CommandOption

def all : List CommandOption :=
  [.help, .model, .stdin, .root, .timeout, .backend, .isabelle, .logic, .method,
    .keepTheory, .verbose, .quiet]

def spellings : CommandOption → List Text
  | help => ["-h", "--help"]
  | model => ["--model"]
  | stdin => ["--stdin"]
  | root => ["-T"]
  | timeout => ["--timeout"]
  | backend => ["--backend"]
  | isabelle => ["--isabelle"]
  | logic => ["--logic"]
  | method => ["--method"]
  | keepTheory => ["--keep-theory"]
  | verbose => ["-v", "--verbose"]
  | quiet => ["-q", "--quiet"]

def name (option : CommandOption) : Text :=
  Text.join "/" option.spellings

def takesValue : CommandOption → Bool
  | help | stdin | verbose | quiet => false
  | _ => true

/-- The option that must not be given together with this one. -/
def rival? : CommandOption → Option CommandOption
  | model => some .stdin
  | stdin => some .model
  | verbose => some .quiet
  | quiet => some .verbose
  | _ => none

/-- All spellings with their options, in the order of the options. -/
def table : List (Text × CommandOption) :=
  all.flatMap fun option => option.spellings.map fun spelling =>
    (spelling, option)

def ofSpelling? (spelling : Text) : Option CommandOption :=
  (table.find? fun (other, _) => other = spelling).map Prod.snd

end CommandOption

/-- A value that is written in one word with its option. -/
structure AttachedValue where
  text : Text
  /-- Whether an equals sign stands between them. -/
  assigned : Bool
deriving DecidableEq

structure GivenOption where
  option : CommandOption
  /-- The full spelling that was meant. -/
  spelling : Text
  attached : Option AttachedValue
deriving DecidableEq

inductive CommandWord
  | plain (text : Text)
  | given (option : GivenOption)
  /-- A word that looks like an option but is none. -/
  | unknown (text : Text)
  /-- The mark after which all words are values. -/
  | separator
deriving DecidableEq

inductive UsageFault
  | ambiguous (word : Text) (candidates : List Text)
  | missingValue (option : CommandOption)
  | ignoredValue (option : CommandOption) (value : Text)
  | invalidNumber (option : CommandOption) (value : Text)
  | invalidChoice (option : CommandOption) (value : Text) (choices : List Text)
  | conflict (option rival : CommandOption)
  | missingFormula
  | missingModel
  | unrecognized (words : List Text)
  | missingRoot
deriving DecidableEq

namespace UsageFault

def about (option : CommandOption) (message : Text) : Text :=
  "argument " ++ option.name ++ ": " ++ message

def message : UsageFault → Text
  | ambiguous word candidates =>
    "ambiguous option: " ++ word ++ " could match " ++ Text.join ", " candidates
  | missingValue option => about option "expected one argument"
  | ignoredValue option value =>
    about option ("ignored explicit argument " ++ value.quoted)
  | invalidNumber option value =>
    about option ("invalid float value: " ++ value.quoted)
  | invalidChoice option value choices =>
    about option ("invalid choice: " ++ value.quoted ++ " (choose from " ++
      Text.join ", " (choices.map Text.quoted) ++ ")")
  | conflict option rival =>
    about option ("not allowed with argument " ++ rival.name)
  | missingFormula => "the following arguments are required: formula"
  | missingModel => "one of the arguments --model --stdin is required"
  | unrecognized words => "unrecognized arguments: " ++ Text.words words
  | missingRoot => "-T ROOT is required with the isabelle backend"

end UsageFault

namespace CommandWord

/-- The parts before and after the first equals sign. -/
def splitAssignment? (word : Text) : Option (Text × Text) :=
  let isOther (point : CodePoint) : Bool := point ≠ '='
  match word.dropWhile isOther with
  | [] => none
  | _ :: value => some (word.takeWhile isOther, value)

/-- The options that a word with two dashes may abbreviate. -/
def longCandidates (word : Text) : List GivenOption :=
  let (start, attached) : Text × Option AttachedValue :=
    match splitAssignment? word with
    | none => (word, none)
    | some (start, value) => (start, some ⟨value, true⟩)
  (CommandOption.table.filter fun (spelling, _) =>
    spelling.startsWith start).map
    fun (spelling, option) => ⟨option, spelling, attached⟩

/-- The options that a word with one dash may mean: a short option with the rest
of the word attached, or an abbreviation. -/
def shortCandidates (word : Text) : List GivenOption :=
  CommandOption.table.filterMap fun (spelling, option) =>
    if spelling = word.take 2
      then some ⟨option, spelling, some ⟨word.drop 2, false⟩⟩
    else if spelling.startsWith word then some ⟨option, spelling, none⟩
    else none

def candidates (word : Text) : List GivenOption :=
  if word.startsWith "--" then longCandidates word else shortCandidates word

def isDigits (text : Text) : Bool :=
  text.all fun point => point.decimalDigit?.isSome

/-- Whether a word is a minus sign and a decimal number, perhaps before a line
feed. -/
def isNegativeNumber (word : Text) : Bool :=
  let number := word.drop 1
  let number := if Text.endsWith number "\n" then number.dropLast else number
  match Text.splitAll '.' number with
  | [whole] => !whole.isEmpty && isDigits whole
  | [whole, part] => isDigits whole && !part.isEmpty && isDigits part
  | _ => false

/-- The option that a word gives in full, with an attached value if there is
one. -/
def exactOption? (word : Text) : Option GivenOption :=
  match CommandOption.ofSpelling? word with
  | some option => some ⟨option, word, none⟩
  | none => do
    let (spelling, value) ← splitAssignment? word
    let option ← CommandOption.ofSpelling? spelling
    return ⟨option, spelling, some ⟨value, true⟩⟩

/-- What a word before the separator is. Negative numbers and words with spaces
are values unless they are options. -/
def classify (word : Text) : Except UsageFault CommandWord :=
  if !word.startsWith "-" || word = ("-" : Text) then .ok (.plain word)
  else
    match exactOption? word with
    | some exact => .ok (.given exact)
    | none =>
      match candidates word with
      | [candidate] => .ok (.given candidate)
      | [] =>
        if isNegativeNumber word || word.contains (CodePoint.ofChar ' ')
          then .ok (.plain word)
        else .ok (.unknown word)
      | several => .error (.ambiguous word (several.map GivenOption.spelling))

def classifyAll : List Text → Except UsageFault (List CommandWord)
  | [] => .ok []
  | word :: words =>
    if word = ("--" : Text) then .ok (.separator :: words.map .plain)
    else do
      let first ← classify word
      let others ← classifyAll words
      return first :: others

end CommandWord

end ModelAudit
