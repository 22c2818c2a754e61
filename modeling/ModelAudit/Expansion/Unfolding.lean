import ModelAudit.Expansion.Construction
import ModelAudit.Script.Fault
import ModelAudit.Theory.Reachability

/-!
# Unfolding of definitions

Each use of a defined symbol is replaced by the body of its definition, in which
the parameters are bound to the arguments. A definition is set aside while its
body is unfolded, so unfolding ends; a use of a symbol that is set aside is
reported as a recursive definition. Arguments are unfolded before the body is
entered, and symbols that are not reached are never looked at.
-/

namespace ModelAudit.Unfolding

/-- The definitions that may be entered, and the names of those that are being
unfolded. -/
structure State where
  available : Table Definition
  entered : List Text

def State.start (definitions : List Definition) : State :=
  ⟨Table.ofPairs
    (definitions.map fun definition => (definition.name, definition)), []⟩

/-- The state inside the body of a definition. -/
def State.enter (state : State) (name : Text) : State :=
  ⟨Table.erase state.available name, name :: state.entered⟩

theorem State.enter_lt (state : State) (name : Text) (definition : Definition)
    (found : Table.find? state.available name = some definition) :
    (state.enter name).available.length < state.available.length :=
  Table.length_erase_lt state.available name definition found

/-- The names of the variables around a term, the innermost first. -/
abbrev Context := List Text

/-- The names inside binders; of a repeated name the last one counts. -/
def Context.extend (context : Context) (names : List Text) : Context :=
  names.reverse ++ context

/-- The variable that a name denotes. -/
def Context.index? (context : Context) (name : Text) : Option Nat :=
  context.idxOf? name

/-- The body of a definition with its parameters bound to arguments. -/
def bindArguments (arguments : List Expression) (body : Expression) :
    Expression :=
  if arguments.isEmpty then body else .letIn arguments body

/-- A symbol without definition, applied to its arguments. -/
def openSymbol (name : Text) (arguments : List Expression) (sort : SmtSort) :
    Expression :=
  if arguments.isEmpty then .constant name sort
    else .application name arguments sort

mutual

def term (state : State) (context : Context) :
    Term → Except Unsupported Expression
  | .literal value => .ok (.value value.constant)
  | .symbol name sort =>
    match context.index? name with
    | some index => .ok (.bound index sort)
    | none => symbol state name [] sort
  | .functionArray function index element => do
    return .arrayOf index element
      (← symbol state function [.bound 0 index] element)
  | .application head indices arguments sort => do
    let unfolded ← terms state context arguments
    match head with
    | .operator operator => return operator.construct indices unfolded sort
    | .function name => symbol state name unfolded sort
  | .letIn bindings body => do
    let values ← boundTerms state context bindings
    return .letIn values
      (← term state (context.extend (bindings.map Prod.fst)) body)
  | .quantified quantifier binders body => do
    let inner ← term state (context.extend (binders.map Prod.fst)) body
    return .quantified quantifier (binders.map Prod.snd) inner
  | .annotated inner _ => term state context inner
termination_by subject => (state.available.length, sizeOf subject, 1)

def terms (state : State) (context : Context) :
    List Term → Except Unsupported (List Expression)
  | [] => .ok []
  | first :: others => do
    let unfolded ← term state context first
    let rest ← terms state context others
    return unfolded :: rest
termination_by subjects => (state.available.length, sizeOf subjects, 1)

def boundTerms (state : State) (context : Context) :
    List (Text × Term) → Except Unsupported (List Expression)
  | [] => .ok []
  | (_, first) :: others => do
    let unfolded ← term state context first
    let rest ← boundTerms state context others
    return unfolded :: rest
termination_by subjects => (state.available.length, sizeOf subjects, 1)

/-- A declared symbol with unfolded arguments. -/
def symbol (state : State) (name : Text) (arguments : List Expression)
    (sort : SmtSort) : Except Unsupported Expression :=
  if state.entered.contains name then .error ⟨"recursive definition", name⟩
  else
    match _found : Table.find? state.available name with
    | none => .ok (openSymbol name arguments sort)
    | some definition => do
      let context := Context.extend [] (definition.params.map Prod.fst)
      return bindArguments arguments
        (← term (state.enter name) context definition.body)
termination_by (state.available.length, 0, 0)
decreasing_by
  exact Prod.Lex.left _ _ (State.enter_lt state name definition _found)

end

def assertions (definitions : List Definition) (subjects : List Term) :
    Except Unsupported (List Expression) :=
  terms (.start definitions) [] subjects

end ModelAudit.Unfolding
