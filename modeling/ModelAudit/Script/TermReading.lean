import ModelAudit.Number.Power
import ModelAudit.Script.SortReading
import ModelAudit.Text.Digit

/-!
# Reading terms

A term is read against the symbol table and the scope of the binders around it.
The arguments of an application are read before its head is judged.
-/

namespace ModelAudit

/-- The bound names with their sorts, innermost first. -/
abbrev Scope := Table SmtSort

/-- Enters binders one after the other; of a repeated name the last one
counts. -/
def Scope.enter (scope : Scope) (binders : Binders) : Scope :=
  binders.reverse ++ scope

/-- What a name alone denotes: a binder, a truth value or a declared
constant. -/
def readReference (symbols : SymbolTable) (scope : Scope) (name : Text)
    (expression : SExpr) : Except Fault Term :=
  match scope.find? name with
  | some sort => .ok (.symbol name sort)
  | none =>
    match truthValue? name with
    | some value => .ok (.literal (.bool value))
    | none =>
      match symbols.lookup? name with
      | some declaration =>
        if declaration.isConstant then .ok (.symbol name declaration.result)
        else mismatch (.argumentCount name declaration.arguments.length 0)
          expression
      | none =>
        if (Operator.ofPlainName? name).isSome
          then mismatch (.missingArguments name) expression
        else .error (.undeclared name expression.place)

def readAtom (symbols : SymbolTable) (scope : Scope) (leaf : Atom)
    (position : Position) : Except Fault Term :=
  match leaf with
  | .numeral digits => .ok (.literal (.integer (Text.decimalValue digits)))
  | .decimal written => .ok (.literal (.decimal written))
  | .hexadecimal digits =>
    .ok (.literal (.bitVector (Text.baseValue 16 digits) (4 * digits.length)))
  | .binary digits =>
    .ok (.literal (.bitVector (Text.baseValue 2 digits) digits.length))
  | .string contents => .ok (.literal (.string contents))
  | .symbol name _ => readReference symbols scope name (.atom leaf position)
  | .keyword written =>
    .error (.malformed (.unexpectedToken written) position.place)

/-- The name and the indices of an indexed identifier, given the items after the
underscore. What follows `as-array` is not looked at. -/
def readIndexedName (items : List SExpr) (expression : SExpr) :
    Except Fault (Text × List Nat) :=
  match items with
  | head :: first :: others =>
    match head.symbol? with
    | none => misshapen "indexed identifier" expression
    | some name =>
      if name = Operator.functionArray.name then .ok (name, [])
      else do return (name, ← (first :: others).mapM readNumeral)
  | _ => misshapen "indexed identifier" expression

def bitVectorDigits? (name : Text) : Option Text :=
  let digits := name.drop 2
  if name.startsWith "bv" && !digits.isEmpty && digits.all CodePoint.isAnyDigit
    then
    some digits
  else none

/-- A bit-vector constant; its value is taken modulo its width's power of
two. -/
def readBitVector (digits : Text) (widthExpression : SExpr) :
    Except Fault Term := do
  let width ← readNumeral widthExpression
  if width = 0 then mismatch .zeroWidth widthExpression
  else
    match digits.anyDecimalValue? with
    | some value =>
      return .literal (.bitVector (value % powerOfTwo width) width)
    | none => .error .digitWithoutValue

/-- The array that a declared unary function is. -/
def readFunctionArray (symbols : SymbolTable) (function : SExpr) :
    Except Fault Term := do
  let name ← readSymbol "function name" function
  match symbols.lookup? name with
  | none => .error (.undeclared name function.place)
  | some declaration =>
    match declaration.arguments with
    | [index] => return .functionArray name index declaration.result
    | arguments =>
      unsupported Operator.functionArray.name
        ("function " ++ name ++ " of arity " ++ Text.decimal arguments.length)

/-- An indexed identifier that stands alone, given the items after the
underscore. -/
def readIndexedConstant (symbols : SymbolTable) (items : List SExpr)
    (expression : SExpr) : Except Fault Term :=
  let otherwise : Except Fault Term := do
    let (name, _) ← readIndexedName items expression
    mismatch (.indexedConstant name) expression
  match items with
  | [head, argument] =>
    match head.symbol? with
    | none => otherwise
    | some name =>
      match bitVectorDigits? name with
      | some digits => readBitVector digits argument
      | none =>
        if name = Operator.functionArray.name
          then readFunctionArray symbols argument
        else otherwise
  | _ => otherwise

/-- A name with a stated sort, given the items after `as`. -/
def readQualified (symbols : SymbolTable) (scope : Scope) (items : List SExpr)
    (expression : SExpr) : Except Fault Term :=
  match items with
  | [head, sortExpression] =>
    match head.symbol? with
    | none => misshapen "qualified identifier" expression
    | some name => do
      let stated ← readSort symbols [] sortExpression
      let term ← readReference symbols scope name head
      if term.sort = stated then return term
      else mismatch (.qualification name term.sort stated) expression
  | _ => misshapen "qualified identifier" expression

/-- Checks arguments against the sorts of a declaration, counting places from
the given one on. -/
def requireArguments (name : Text) (expression : SExpr) (place : Nat) :
    (arguments expected : List SmtSort) → Except Fault Unit
  | got :: arguments, wanted :: expected =>
    if got = wanted
      then requireArguments name expression (place + 1) arguments expected
    else mismatch (.argument name place got wanted) expression
  | _, _ => .ok ()

/-- A constant array with a stated sort. -/
def applyConstantArray (stated : SmtSort) (arguments : List Term)
    (expression : SExpr) : Except Fault Term :=
  match stated.arrayParts?, arguments with
  | some (_, element), [value] =>
    if value.sort = element then
      .ok (.application (.operator .constantArray) [] [value] stated)
    else mismatch (.constantArrayValue value.sort element) expression
  | _, _ => mismatch (.constantArrayShape stated) expression

/-- The head that a name stands for, with the sort of the application. Declared
symbols come before operators. -/
def resolveHead (symbols : SymbolTable) (name : Text) (indices : List Nat)
    (arguments : List SmtSort) (expression : SExpr) (headPlace : Place) :
    Except Fault (Head × SmtSort) :=
  match symbols.lookup? name with
  | some declaration =>
    if arguments.length = declaration.arguments.length then do
      requireArguments name expression 1 arguments declaration.arguments
      return (.function name, declaration.result)
    else
      mismatch (.argumentCount name declaration.arguments.length
        arguments.length) expression
  | none =>
    match (Operator.ofPlainName? name).bind fun operator =>
        operator.rule?.map fun rule => (operator, rule) with
    | some (operator, rule) =>
      match rule.resultSort operator arguments (indices.map Int.ofNat) with
      | .ok sort => .ok (.operator operator, sort)
      | .error fault => mismatch (.signature fault) expression
    | none => .error (.undeclared name headPlace)

/-- Applies a name, with its indices and its stated sort, to arguments. -/
def applyName (symbols : SymbolTable) (scope : Scope) (name : Text)
    (indices : List Nat) (stated : Option SmtSort) (arguments : List Term)
    (expression : SExpr)
    (headPlace : Place) : Except Fault Term :=
  if scope.has name then mismatch (.appliedBinder name) expression
  else
    match stated.filter fun _ => name = Operator.constantArray.name with
    | some sort => applyConstantArray sort arguments expression
    | none => do
      let (head, sort) ←
        resolveHead symbols name indices
        (arguments.map Term.sort) expression headPlace
      match stated.filter fun statedSort => statedSort ≠ sort with
      | some statedSort =>
        mismatch (.qualification name sort statedSort) expression
      | none => return .application head indices arguments sort

/-- Applies a list that stands in the place of a function name: an indexed or a
qualified identifier. -/
def applyList (symbols : SymbolTable) (scope : Scope) (headItems : List SExpr)
    (headExpression : SExpr) (arguments : List Term) (expression : SExpr) :
    Except Fault Term :=
  let unexpected : Except Fault Term :=
    .error (.malformed (.unexpectedTerm expression.text) expression.place)
  let headPlace := headExpression.place
  match headItems with
  | [] => unexpected
  | mark :: items =>
    if mark.isSymbol "_" then do
      let (name, indices) ← readIndexedName items headExpression
      applyName symbols scope name indices none arguments expression headPlace
    else if mark.isSymbol "as" then
      match items with
      | [inner, sortExpression] => do
        let stated ← readSort symbols [] sortExpression
        match inner with
        | .list [] _ => .error .emptyIdentifier
        | .list (innerMark :: innerItems) _ =>
          if innerMark.isSymbol "_" then
            let (name, indices) ← readIndexedName innerItems inner
            applyName symbols scope name indices
              (some stated) arguments expression headPlace
          else unexpected
        | .atom (.symbol name _) _ =>
          applyName symbols scope name []
            (some stated) arguments expression headPlace
        | .atom _ _ => unexpected
      | _ => misshapen "qualified identifier" headExpression
    else unexpected

def isKeyword : SExpr → Bool
  | .atom (.keyword _) _ => true
  | _ => false

/-- Keywords, each with the text of the value after it, if there is one. -/
def readAttributes : List SExpr → Except Fault (List (Text × Text))
  | [] => .ok []
  | .atom (.keyword key) _ :: rest =>
    match rest with
    | [] => .ok [(key, [])]
    | next :: others =>
      if isKeyword next
        then do return (key, []) :: (← readAttributes (next :: others))
      else do return (key, next.text) :: (← readAttributes others)
  | expression :: _ => expected "an attribute keyword" expression

def quantifier? (name : Text) : Option Quantifier :=
  [.universal, .existential].find? fun quantifier : Quantifier =>
    quantifier.name = name

mutual

def readTerm (symbols : SymbolTable) (scope : Scope) : SExpr → Except Fault Term
  | .atom leaf position => readAtom symbols scope leaf position
  | .list [] position => .error (.malformed .emptyApplication position.place)
  | .list (.list headItems headPosition :: rest) position =>
    let expression := .list (.list headItems headPosition :: rest) position
    if headItems.isEmpty then
      .error (.malformed (.unexpectedTerm expression.text) position.place)
    else do
      let arguments ← readTerms symbols scope rest
      applyList symbols scope headItems (.list headItems headPosition) arguments
        expression
  | .list (.atom leaf headPosition :: rest) position =>
    let expression := .list (.atom leaf headPosition :: rest) position
    match leaf with
    | .symbol name _ =>
      if name = ("let" : Text) then
        match rest with
        | [.list (first :: others) _, body] => do
          let bindings ← readBindings symbols scope [] (first :: others)
          let binders := bindings.map fun (bound, term) => (bound, term.sort)
          return .letIn bindings (← readTerm symbols (scope.enter binders) body)
        | _ => .error (.malformed .letShape position.place)
      else
        match quantifier? name with
        | some quantifier =>
          match rest with
          | [.list (first :: others) _, body] => do
            let binders ← (first :: others).mapM (readSortedName symbols)
            let term ← readTerm symbols (scope.enter binders) body
            if term.sort = .bool then return .quantified quantifier binders term
            else mismatch (.quantifierBody term.sort) body
          | _ =>
            .error (.malformed (.quantifierShape quantifier) position.place)
        | none =>
          if name = ("!" : Text) then
            match rest with
            | inner :: first :: others => do
              let term ← readTerm symbols scope inner
              return .annotated term (← readAttributes (first :: others))
            | _ => .error (.malformed .annotationShape position.place)
          else if name = ("_" : Text)
            then readIndexedConstant symbols rest expression
          else if name = ("as" : Text)
            then readQualified symbols scope rest expression
          else if name = ("match" : Text) then
            unsupported "match" ("line " ++ Text.decimal position.line)
          else do
            let arguments ← readTerms symbols scope rest
            applyName symbols scope name
              [] none arguments expression headPosition.place
    | _ => .error (.malformed (.unexpectedTerm expression.text) position.place)

def readTerms (symbols : SymbolTable) (scope : Scope) :
    List SExpr → Except Fault (List Term)
  | [] => .ok []
  | expression :: expressions => do
    let term ← readTerm symbols scope expression
    let terms ← readTerms symbols scope expressions
    return term :: terms

/-- The bindings of a let, after those of the given names. -/
def readBindings (symbols : SymbolTable) (scope : Scope) (seen : List Text) :
    List SExpr → Except Fault (List (Text × Term))
  | [] => .ok []
  | .list [nameExpression, value] position :: others => do
    let name ← readSymbol "variable name" nameExpression
    if seen.contains name
      then .error (.malformed (.repeatedBinding name) position.place)
    let bound ← readTerm symbols scope value
    let bindings ← readBindings symbols scope (name :: seen) others
    return (name, bound) :: bindings
  | expression :: _ => misshapen "let binding" expression

end

end ModelAudit
