import ModelAudit.Hol.Identifier
import ModelAudit.Hol.Term

/-!
# Reading terms of HOL

How HOL reads the text of a term, as far as the forms go that Core and Ints
need. The text is cut into tokens, the tokens are grouped by their parentheses,
and each group is read as one form.
-/

namespace ModelAudit.InnerSyntax

/-! ## Tokens -/

def isDelimiter (point : CodePoint) : Bool :=
  (" ().;:" : Text).contains point

/-- The tokens of a text: its longest runs without delimiters, and its
delimiters except spaces. -/
def tokens : Text → List Text
  | [] => []
  | point :: rest =>
    if point = ' ' then tokens rest
    else if isDelimiter point || rest.head?.all isDelimiter
      then [point] :: tokens rest
    else
      match tokens rest with
      | [] => [[point]]
      | token :: others => (point :: token) :: others

def isWordPart (point : CodePoint) : Bool :=
  Identifier.isAlphanumeric point || point = '_' || point = '\''

/-- A letter followed by letters, digits, underscores and primes. -/
def isWord : Text → Bool
  | [] => false
  | first :: rest => first.isLetter && rest.all isWordPart

def isVariable (word : Text) : Bool :=
  isWord word && !Identifier.reserved.contains word

/-- Variables, and constants that are no operators. -/
def isName (word : Text) : Bool :=
  isVariable word || (["True", "False", "abs"] : List Text).contains word

def isNumeral (digits : Text) : Bool :=
  !digits.isEmpty && digits.all CodePoint.isDigit

def isTypeName : Text → Bool
  | [] => false
  | first :: rest =>
    (["bool", "int", "real", "string"] : List Text).contains (first :: rest) ||
      first = '\'' && isWord rest

def binder? (token : Text) : Option HolBinder :=
  [.universal, .existential, .abstraction].find? fun binder : HolBinder =>
    binder.symbol = token

def prefixes : List Text :=
  ["\\<not>", "-"]

def conjunctionSymbol : Text :=
  "\\<and>"

def infixes : List Text :=
  [conjunctionSymbol, "\\<or>", "\\<longrightarrow>", "=", "\\<noteq>", "+",
    "-", "*", "<", "\\<le>", ">", "\\<ge>"]

/-! ## Phrases -/

/-- A token, or what stands between two parentheses. -/
inductive Phrase
  | word (token : Text)
  | parens (items : List Phrase)

/-- The tokens grouped by their parentheses: those after `items`, which stand
inside the open groups `outer`. -/
def phrases (outer : List (List Phrase)) (items : List Phrase) :
    List Text → Option (List Phrase)
  | [] => if outer.isEmpty then some items else none
  | token :: rest =>
    if token = "(" then phrases (items :: outer) [] rest
    else if token = ")" then
      match outer with
      | [] => none
      | before :: outer => phrases outer (before ++ [.parens items]) rest
    else phrases outer (items ++ [.word token]) rest

/-! ## Types -/

def arrowSymbol : Text :=
  "\\<Rightarrow>"

/-- A number before the type constructor of bit-vectors. -/
def wordType? (digits constructor : Text) : Option HolType :=
  if isNumeral digits && constructor = "word"
    then some (.word (Text.decimalValue digits))
  else none

mutual

def readPhraseType : Phrase → Option HolType
  | .word name => if isTypeName name then some (.named name) else none
  | .parens items => readArrow items

def readType : List Phrase → Option HolType
  | [phrase] => readPhraseType phrase
  | [.word digits, .word constructor] => wordType? digits constructor
  | _ => none

def readArrow : List Phrase → Option HolType
  | .word digits :: .word constructor :: .word arrow :: rest =>
    if constructor = arrowSymbol then do
      return .function (← readPhraseType (.word digits))
        (← readType (.word arrow :: rest))
    else if arrow = arrowSymbol then do
      return .function (← wordType? digits constructor) (← readType rest)
    else none
  | argument :: .word arrow :: rest =>
    if arrow = arrowSymbol then do
      return .function (← readPhraseType argument) (← readType rest)
    else none
  | _ => none

end

/-- A type after two colons. -/
def readAscription : List Phrase → Option HolType
  | .word first :: .word second :: type =>
    if first = ":" && second = ":" then readType type else none
  | _ => none

def readVariable : List Phrase → Option (Text × HolType)
  | .word identifier :: ascription =>
    if isVariable identifier
      then do return (identifier, ← readAscription ascription) else none
  | _ => none

/-! ## Terms -/

/-- The operator between two arguments that a phrase is. -/
def infix? : Phrase → Option Text
  | .word symbol => if infixes.contains symbol then some symbol else none
  | .parens _ => none

mutual

def readTerm : Phrase → Option HolTerm
  | .word name => if isName name then some (.name name) else none
  | .parens items => readInside items

/-- The term that stands between two parentheses. -/
def readInside : List Phrase → Option HolTerm
  | [] => none
  | .parens items :: rest => do readApplied (← readInside items) rest
  | .word token :: rest =>
    if token = "if" then readConditional rest
    else if token = "let" then do
      let parts ← readLet rest
      return .letIn parts.fst parts.snd
    else
      match binder? token with
      | some binder => do
        let parts ← readBound rest
        return .bound binder parts.fst parts.snd
      | none =>
        if prefixes.contains token then do
          return .apply (.name token) [← readLast rest]
        else if isNumeral token then do
          return .numeral token (← readAscription rest)
        else if isName token then readApplied (.name token) rest
        else none

/-- What follows the first term: an operator with its second argument, or
arguments. -/
def readApplied (first : HolTerm) : List Phrase → Option HolTerm
  | [] => some first
  | next :: rest =>
    match infix? next with
    | some symbol => do return .operation symbol first (← readRight symbol rest)
    | none => do return .apply first ((← readTerm next) :: (← readTerms rest))

/-- The second argument of an operator. Conjunctions nest to the right. -/
def readRight (symbol : Text) : List Phrase → Option HolTerm
  | [last] => readTerm last
  | part :: .word next :: rest =>
    if symbol = conjunctionSymbol && next = symbol then do
      return .operation symbol (← readTerm part) (← readRight symbol rest)
    else none
  | _ => none

def readTerms : List Phrase → Option (List HolTerm)
  | [] => some []
  | first :: rest => do return (← readTerm first) :: (← readTerms rest)

def readLast : List Phrase → Option HolTerm
  | [last] => readTerm last
  | _ => none

def readConditional : List Phrase → Option HolTerm
  | [test, .word middle, first, .word last, second] =>
    if middle = "then" && last = "else" then do
      return .conditional (← readTerm test) (← readTerm first)
        (← readTerm second)
    else none
  | _ => none

def readLet : List Phrase → Option (List (Text × HolTerm) × HolTerm)
  | .word identifier :: .word equals :: bound :: .word mark :: rest =>
    if isVariable identifier && equals = "=" then do
      let value ← readTerm bound
      if mark = ";" then do
        let inner ← readLet rest
        return ((identifier, value) :: inner.fst, inner.snd)
      else if mark = "in"
        then do return ([(identifier, value)], ← readLast rest)
      else none
    else none
  | _ => none

def readBound : List Phrase → Option (List (Text × HolType) × HolTerm)
  | [.parens entry, .word stop, body] =>
    if stop = "."
      then do return ([← readVariable entry], ← readTerm body) else none
  | .parens entry :: rest => do
    let inner ← readBound rest
    return ((← readVariable entry) :: inner.fst, inner.snd)
  | _ => none

end

/-- The term that a text denotes. -/
def read (text : Text) : Option HolTerm :=
  match phrases [] [] (tokens text) with
  | some [phrase] => readTerm phrase
  | _ => none

end ModelAudit.InnerSyntax
