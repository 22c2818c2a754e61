import ModelAudit.Proofs.SettledPair

/-!
# Commands that declare and define sorts

What a command does to the sorts and the aliases of the symbol table, told from
the command as it is written. Only `declare-sort` and `define-sort` change them.
-/

namespace ModelAudit

namespace SExpr

/-- The sort that a `declare-sort` command declares. -/
def declaredSort? : SExpr → Option Text :=
  nameAfter? "declare-sort"

/-- An alias as a `define-sort` command writes it. -/
structure WrittenAlias where
  name : Text
  params : List Text
  body : SExpr

def definedSort? : SExpr → Option WrittenAlias
  | .list [head, name, .list params _, body] _ =>
    if head.isSymbol "define-sort" then
      name.symbol?.map fun name => ⟨name, params.filterMap symbol?, body⟩
    else none
  | _ => none

theorem definedSort?_of_head {head : Text} {expression : SExpr}
    (headed : expression.headSymbol? = some head)
    (other : head ≠ "define-sort") :
    expression.definedSort? = none := by
  unfold definedSort?
  split
  · next first _ _ _ _ _ =>
    change first.symbol? = some head at headed
    rw [isSymbol, headed, if_neg (by simpa using other)]
  · rfl

end SExpr

namespace Command

/-- What an accepted command does to sorts and aliases. -/
inductive SortStep (expression : SExpr) (symbols later : SymbolTable) : Prop
  | declare (name : Text) :
      expression.declaredSort? = some name → expression.definedSort? = none →
      later = symbols.declareSort name 0 → SortStep expression symbols later
  | define (written : SExpr.WrittenAlias) (body : SmtSort) :
      expression.declaredSort? = none → expression.definedSort? = some written →
      readSort symbols written.params written.body = .ok body →
      later = symbols.defineSort written.name ⟨written.params, body⟩ →
      SortStep expression symbols later
  | other :
      expression.declaredSort? = none → expression.definedSort? = none →
      later.sorts = symbols.sorts → later.aliases = symbols.aliases →
      SortStep expression symbols later

variable {symbols later : SymbolTable} {expression : SExpr} {command : Command}

theorem filterMap_symbol?_eq {items : List SExpr} {names : List Text}
    (read : List.Forall₂ (fun item name => SExpr.symbol? item = some name) items
      names) :
    items.filterMap SExpr.symbol? = names := by
  induction read with
  | nil => rfl
  | cons named _ inductionHypothesis =>
      rw [List.filterMap_cons_some named, inductionHypothesis]

theorem sortStep_of_declareSort
    (isCommand : ofExpression expression = .ok command)
    (head : command.head = ("declare-sort" : Text))
    (declared : command.declareSort symbols = .ok later) :
    SortStep expression symbols later := by
  obtain ⟨position, rfl, headed⟩ := headSymbol?_of_ofExpression isCommand
  obtain ⟨name, ⟨first, nameExpression, rest, items, named⟩, rfl, _⟩ :=
    declareSort_eq_ok declared
  have undefined := SExpr.definedSort?_of_head headed (by rw [head]; decide)
  refine .declare name ?_ undefined rfl
  rw [items] at headed ⊢
  change first.symbol? = some command.head at headed
  exact (SExpr.nameAfter?_of_head (headed.trans (congrArg some head))).trans
    named

theorem sortStep_of_defineSort
    (isCommand : ofExpression expression = .ok command)
    (head : command.head = ("define-sort" : Text))
    (defined : command.defineSort symbols = .ok later) :
    SortStep expression symbols later := by
  obtain ⟨position, rfl, headed⟩ := headSymbol?_of_ofExpression isCommand
  obtain ⟨name, params, bodyExpression, body, parts, rfl⟩ :=
    defineSort_eq_ok defined
  obtain ⟨first, nameExpression, paramItems, _, items, named, paramNames⟩ :=
    parts.items
  refine .define ⟨name, params, bodyExpression⟩ body ?_ ?_ parts.read rfl
  · exact SExpr.nameAfter?_of_other headed (by rw [head]; decide)
  · rw [items] at headed ⊢
    change first.symbol? = some command.head at headed
    rw [SExpr.definedSort?, SExpr.isSymbol, headed, head,
      if_pos (decide_eq_true rfl), named, Option.map_some,
      filterMap_symbol?_eq paramNames]

/-- A command with another head leaves the sorts alone. -/
theorem sortStep_of_head (isCommand : ofExpression expression = .ok command)
    (declares : command.head ≠ "declare-sort")
    (defines : command.head ≠ "define-sort")
    (sorts : later.sorts = symbols.sorts)
    (aliases : later.aliases = symbols.aliases) :
    SortStep expression symbols later := by
  obtain ⟨_, _, headed⟩ := headSymbol?_of_ofExpression isCommand
  exact .other (SExpr.nameAfter?_of_other headed declares)
    (SExpr.definedSort?_of_head headed defines) sorts aliases

/-- A command that declares a symbol leaves the sorts alone. -/
theorem sortStep_of_declare {declaration : Declaration}
    (isCommand : ofExpression expression = .ok command)
    (declares : command.head ≠ "declare-sort")
    (defines : command.head ≠ "define-sort")
    (table : later = symbols.declare declaration) :
    SortStep expression symbols later :=
  sortStep_of_head isCommand declares defines (by rw [table]; rfl)
    (by rw [table]; rfl)

theorem sortStep_of_declaration? {declaration : Declaration}
    (wellFormed : symbols.WellFormed)
    (isCommand : ofExpression expression = .ok command)
    (declared : command.declaration? symbols =
      some (.ok (declaration, later))) :
    SortStep expression symbols later :=
  sortStep_of_declare isCommand (head_ne_of_declaration? declared (by decide))
    (head_ne_of_declaration? declared (by decide))
    (declares_of_declaration? wellFormed declared).1.table

end Command

namespace Session

open Command

/-- An accepted command of a formula does one of these things to sorts. -/
theorem sortStep_of_formulaStep {progress next : FormulaProgress}
    {expression : SExpr} (wellFormed : progress.session.symbols.WellFormed)
    (stepped : formulaStep progress expression = .ok next) :
    SortStep expression progress.session.symbols next.session.symbols := by
  obtain ⟨command, isCommand, effect⟩ := exists_formulaEffect stepped
  cases effect with
  | ignored ignored =>
      refine sortStep_of_head isCommand ?_ ?_ rfl rfl
      all_goals
        intro head
        rw [head] at ignored
        exact absurd ignored (by decide)
  | asserted head _ =>
      exact sortStep_of_head isCommand (by rw [head]; decide)
        (by rw [head]; decide) rfl rfl
  | defined head read =>
      exact sortStep_of_declare isCommand (by rw [head]; decide)
        (by rw [head]; decide)
        (defines_of_defineFunction wellFormed read).1.table
  | sortDeclared head read => exact sortStep_of_declareSort isCommand head read
  | sortDefined head read => exact sortStep_of_defineSort isCommand head read
  | declared read => exact sortStep_of_declaration? wellFormed isCommand read

/-- Registering functions leaves the sorts alone. -/
theorem sorts_of_registerStep {session next : Session} {expression : SExpr}
    (wellFormed : session.symbols.WellFormed)
    (stepped : registerStep session expression = .ok next) :
    next.symbols.sorts = session.symbols.sorts := by
  obtain ⟨_, _, ⟨_, symbols, registered, rfl⟩ | ⟨_, rfl⟩⟩ :=
    registerStep_eq_ok_iff.mp stepped
  · obtain ⟨_, declaration, rfl⟩ :=
      step_of_registerFunction wellFormed registered
    rfl
  · rfl

/-- An accepted command of a model does one of these things to sorts. -/
theorem sortStep_of_modelStep {progress next : ModelProgress}
    {expression : SExpr} (wellFormed : progress.session.symbols.WellFormed)
    (stepped : modelStep progress expression = .ok next) :
    SortStep expression progress.session.symbols next.session.symbols := by
  obtain ⟨command, isCommand, effect⟩ := exists_modelEffect stepped
  cases effect with
  | defined head read _ =>
      exact sortStep_of_declare isCommand (by rw [head]; decide)
        (by rw [head]; decide)
        (defines_of_defineFunction wellFormed read).1.table
  | sortDeclared head read => exact sortStep_of_declareSort isCommand head read
  | declared read _ => exact sortStep_of_declaration? wellFormed isCommand read

end Session

end ModelAudit
