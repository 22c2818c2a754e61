import ModelAudit.Proofs.SortCommands

/-!
# Stable signatures

Whatever a session reads, faulty or not, a declared symbol stays at its place in
the table with its name and its signature. Terms that have been read therefore
keep their symbols.
-/

namespace ModelAudit

open SymbolTable

namespace SymbolTable

/-- Every declaration is still at its place; at most its kind is another. -/
def Keeps (earlier later : SymbolTable) : Prop :=
  ∀ (place : Nat) (name : Text) (declaration : Declaration),
    earlier.declarations[place]? = some (name, declaration) →
    ∃ kind, later.declarations[place]? = some (name, { declaration with kind })

variable {symbols later : SymbolTable}

theorem Keeps.trans {last : SymbolTable} (first : symbols.Keeps later)
    (second : later.Keeps last) :
    symbols.Keeps last := by
  intro place name declaration placed
  obtain ⟨_, placed⟩ := first place name declaration placed
  obtain ⟨kind, placed⟩ := second place name _ placed
  exact ⟨kind, placed⟩

/-- No command removes a declaration, moves it, or changes its signature. -/
theorem Step.keeps (step : Step symbols later) (wellFormed : symbols.WellFormed)
    (nodup : symbols.declarations.names.Nodup) : symbols.Keeps later := by
  intro place name declaration placed
  cases step with
  | declareSort _ | defineSort _ _ _ => exact ⟨declaration.kind, placed⟩
  | declare new _ _ _ same =>
      obtain ⟨entry, placed', rfl | ⟨rfl, rfl⟩⟩ :=
        Table.getElem?_insert placed new.name new
      · exact ⟨entry.kind, placed'⟩
      · -- The new declaration takes the place of one with the same name and
        -- signature.
        have found : symbols.lookup? entry.name = some declaration :=
          (Table.find?_eq_some_iff_of_nodup nodup).mpr
            (List.mem_of_getElem? placed)
        have named := wellFormed.names entry.name declaration found
        obtain ⟨arguments, result⟩ :=
          sameSignature_iff.mp (same declaration found)
        refine ⟨entry.kind, placed'.trans ?_⟩
        rw [named, arguments, result]

theorem Grows.keeps (grown : symbols.Grows later)
    (wellFormed : symbols.WellFormed)
    (nodup : symbols.declarations.names.Nodup) : symbols.Keeps later := by
  induction grown with
  | refl => exact fun _ _ declaration placed => ⟨declaration.kind, placed⟩
  | tail grown step inductionHypothesis =>
      exact inductionHypothesis.trans
        (step.keeps (Grows.wellFormed grown wellFormed)
          (Grows.nodup_names grown nodup))

end SymbolTable

namespace Session

/-! ## What a session reads -/

/-- A text for a session to read. -/
inductive Input
  | formula (text : Text)
  | model (output : Text)

/-- The session after a text, be the text faulty or not. -/
def readInput (session : Session) : Input → Session
  | .formula text => (session.readFormula text).snd
  | .model output => (session.readModel output).snd

def readInputs (session : Session) (inputs : List Input) : Session :=
  inputs.foldl readInput session

variable {session : Session}

/-! ## Declared sorts -/

/-- The commands that a text holds. -/
def Input.HoldsCommands : Input → List SExpr → Prop
  | formula text, commands => readExpressions text = .ok commands
  | model output, commands => Session.HoldsCommands output commands

/-- Some command of the text declares the sort. -/
def Input.DeclaresSort (input : Input) (name : Text) : Prop :=
  ∃ commands, input.HoldsCommands commands ∧
    ∃ expression ∈ commands, expression.declaredSort? = some name

/-- The later table has come from the earlier one by commands among these. -/
structure GrownBy (commands : List SExpr) (symbols later : SymbolTable) :
    Prop where
  grown : symbols.Grows later
  sorts : ∀ name ∈ later.userSorts, name ∈ symbols.userSorts ∨
    ∃ expression ∈ commands, expression.declaredSort? = some name

variable {commands : List SExpr} {expression : SExpr}
  {symbols later last : SymbolTable}

theorem GrownBy.refl : GrownBy commands symbols symbols :=
  ⟨.refl, fun _ member => .inl member⟩

theorem GrownBy.trans (first : GrownBy commands symbols later)
    (second : GrownBy commands later last) : GrownBy commands symbols last where
  grown := Relation.ReflTransGen.trans first.grown second.grown
  sorts name member := by
    rcases second.sorts name member with earlier | declared
    · exact first.sorts name earlier
    · exact .inr declared

theorem GrownBy.mono {more : List SExpr}
    (grownBy : GrownBy commands symbols later) (subset : commands ⊆ more) :
    GrownBy more symbols later where
  grown := grownBy.grown
  sorts name member := (grownBy.sorts name member).imp_right
    fun ⟨expression, inside, declared⟩ => ⟨expression, subset inside, declared⟩

/-- What a single command does to the sorts, together with what it does to the
symbols. -/
theorem grownBy_of_sortStep (grown : symbols.Grows later)
    (step : Command.SortStep expression symbols later) :
    GrownBy [expression] symbols later := by
  refine ⟨grown, fun name listed => ?_⟩
  cases step with
  | declare other declared _ table =>
      rw [table] at listed
      rcases Table.mem_names_insert.mp listed with rfl | earlier
      · exact .inr ⟨expression, List.mem_singleton_self _, declared⟩
      · exact .inl earlier
  | define _ _ _ _ _ table =>
      rw [table] at listed
      exact .inl listed
  | other _ _ sorts _ =>
      rw [userSorts, sorts] at listed
      exact .inl listed

theorem formulaStep_grownBy {progress next : FormulaProgress}
    (wellFormed : progress.session.symbols.WellFormed)
    (stepped : formulaStep progress expression = .ok next) :
    GrownBy [expression] progress.session.symbols next.session.symbols := by
  obtain ⟨_, _, step⟩ := formulaStep_cases wellFormed stepped
  exact grownBy_of_sortStep step.grows
    (sortStep_of_formulaStep wellFormed stepped)

theorem registerStep_grownBy {next : Session}
    (wellFormed : session.symbols.WellFormed)
    (stepped : registerStep session expression = .ok next) :
    GrownBy [expression] session.symbols next.symbols := by
  have sorts := sorts_of_registerStep wellFormed stepped
  have grown : session.symbols.Grows next.symbols := by
    rcases registerStep_cases wellFormed stepped with rfl | ⟨_, step, rfl⟩
    · exact .refl
    · exact .single step
  refine ⟨grown, fun name listed => .inl ?_⟩
  rwa [userSorts, sorts] at listed

theorem modelStep_grownBy {progress next : ModelProgress}
    (wellFormed : progress.session.symbols.WellFormed)
    (stepped : modelStep progress expression = .ok next) :
    GrownBy [expression] progress.session.symbols next.session.symbols := by
  obtain ⟨_, _, step⟩ := modelStep_cases wellFormed stepped
  exact grownBy_of_sortStep step.grows
    (sortStep_of_modelStep wellFormed stepped)

/-- What every command does to the symbol table of a state, all commands of a
run do, also if the run ends at a fault. -/
theorem runAll_grownBy {State : Type}
    {step : State → SExpr → Except Fault State} {table : State → SymbolTable}
    (stepGrownBy : ∀ {state expression next}, (table state).WellFormed →
      step state expression = .ok next →
      GrownBy [expression] (table state) (table next))
    {state : State} (wellFormed : (table state).WellFormed)
    (commands : List SExpr) :
    GrownBy commands (table state)
      (table (runAll step state commands).snd) := by
  apply runAll_induction fun reached : State =>
    GrownBy commands (table state) (table reached)
  · intro reached expression member next before stepped
    have here := stepGrownBy (before.grown.wellFormed wellFormed) stepped
    exact before.trans
      (here.mono fun _ inside => List.mem_singleton.mp inside ▸ member)
  · exact .refl

theorem runAll_formulaStep_grownBy (progress : FormulaProgress)
    (wellFormed : progress.session.symbols.WellFormed) (commands : List SExpr) :
    GrownBy commands progress.session.symbols
      (runAll formulaStep progress commands).snd.session.symbols :=
  runAll_grownBy formulaStep_grownBy wellFormed commands

theorem runAll_registerStep_grownBy (wellFormed : session.symbols.WellFormed)
    (commands : List SExpr) :
    GrownBy commands session.symbols
      (runAll registerStep session commands).snd.symbols :=
  runAll_grownBy registerStep_grownBy wellFormed commands

theorem runAll_modelStep_grownBy (progress : ModelProgress)
    (wellFormed : progress.session.symbols.WellFormed) (commands : List SExpr) :
    GrownBy commands progress.session.symbols
      (runAll modelStep progress commands).snd.session.symbols :=
  runAll_grownBy modelStep_grownBy wellFormed commands

theorem readFormula_grownBy (wellFormed : session.symbols.WellFormed)
    {text : Text} (read : readExpressions text = .ok commands) :
    GrownBy commands session.symbols
      (session.readFormula text).snd.symbols := by
  have grown :=
    runAll_formulaStep_grownBy ⟨session, ⟨[], []⟩⟩ wellFormed commands
  rw [readFormula, read]
  dsimp only
  split <;> next run => rw [run] at grown; exact grown

theorem readModel_grownBy (wellFormed : session.symbols.WellFormed)
    {output : Text} (ready : session.formulaRead = true)
    (holds : HoldsCommands output commands) :
    GrownBy commands session.symbols
      (session.readModel output).snd.symbols := by
  obtain ⟨text, expressions, isText, read, rfl⟩ := holds
  have registered :=
    runAll_registerStep_grownBy wellFormed (unwrapModel expressions)
  rw [readModel, if_pos ready, isText]
  dsimp only
  rw [read]
  dsimp only
  split
  · next run => rw [run] at registered; exact registered
  · next middle run =>
    rw [run] at registered
    have grown := runAll_modelStep_grownBy ⟨middle, ⟨[], []⟩⟩
      (registered.grown.wellFormed wellFormed) (unwrapModel expressions)
    split <;> next run => rw [run] at grown; exact registered.trans grown

/-- Reading adds to the symbol table what the commands of the text declare; if
there are none to read, it adds nothing. -/
theorem readInput_grownBy (wellFormed : session.symbols.WellFormed)
    (input : Input) :
    (session.readInput input).symbols = session.symbols ∨
      ∃ commands, input.HoldsCommands commands ∧
        GrownBy commands session.symbols (session.readInput input).symbols := by
  cases input with
  | formula text =>
      cases isRead : readExpressions text with
      | error fault => exact .inl (by rw [readInput, readFormula, isRead])
      | ok commands =>
        exact .inr ⟨commands, isRead, readFormula_grownBy wellFormed isRead⟩
  | model output =>
      by_cases ready : session.formulaRead = true
      · cases isText : SolverOutput.modelText output with
        | error cause =>
          exact .inl (by rw [readInput, readModel, if_pos ready, isText])
        | ok text =>
            cases isRead : readExpressions text with
            | error fault =>
                refine .inl ?_
                rw [readInput, readModel, if_pos ready, isText]
                dsimp only
                rw [isRead]
            | ok expressions =>
                have holds : HoldsCommands output (unwrapModel expressions) :=
                  ⟨text, expressions, isText, isRead, rfl⟩
                exact .inr ⟨_, holds, readModel_grownBy wellFormed ready holds⟩
      · exact .inl (by rw [readInput, readModel, if_neg ready])

/-- Over all inputs symbols are only added, and sorts only as commands declare
them. -/
theorem readInputs_grows (wellFormed : session.symbols.WellFormed)
    (inputs : List Input) :
    session.symbols.Grows (session.readInputs inputs).symbols ∧
      ∀ name ∈ (session.readInputs inputs).symbols.userSorts,
        name ∈ session.symbols.userSorts ∨
        ∃ input ∈ inputs, input.DeclaresSort name := by
  induction inputs generalizing session with
  | nil => exact ⟨.refl, fun _ member => .inl member⟩
  | cons input inputs inductionHypothesis =>
      obtain ⟨grown, sorts⟩ :
          session.symbols.Grows (session.readInput input).symbols ∧
          ∀ name ∈ (session.readInput input).symbols.userSorts,
            name ∈ session.symbols.userSorts ∨ input.DeclaresSort name := by
        rcases readInput_grownBy wellFormed input
          with same | ⟨commands, holds, grownBy⟩
        · rw [same]
          exact ⟨.refl, fun _ member => .inl member⟩
        · refine ⟨grownBy.grown, fun name listed => ?_⟩
          exact (grownBy.sorts name listed).imp_right fun declared =>
            ⟨commands, holds, declared⟩
      obtain ⟨laterGrown, laterSorts⟩ :=
        inductionHypothesis (grown.wellFormed wellFormed)
      refine ⟨grown.trans laterGrown, fun name listed => ?_⟩
      rcases laterSorts name listed with reached | ⟨other, member, declares⟩
      · exact (sorts name reached).imp_right fun declares =>
          ⟨input, List.mem_cons_self, declares⟩
      · exact .inr ⟨other, List.mem_cons_of_mem _ member, declares⟩

/-! ## Declarations -/

/-- What holds of the symbols of a session that has read these texts. -/
structure WellDeclared (session : Session) (inputs : List Input) : Prop where
  /-- No name is declared twice. -/
  names : session.symbols.declarations.names.Nodup
  named : ∀ name declaration, (name, declaration) ∈
      session.symbols.declarations →
    declaration.name = name
  /-- Operators are not declared; those of arrays are `const` and `as-array`. -/
  operators : ∀ operator : Operator,
      operator.name ∉ session.symbols.declarations.names
  truthValues : ∀ value : Text, value = "true" ∨ value = "false" →
    value ∉ session.symbols.declarations.names
  /-- Sorts are built from built-in sorts and from sorts that some command
  declares. -/
  ground : ∀ declaration ∈ session.symbols.declarations.values,
    ∀ sort ∈ declaration.result :: declaration.arguments,
      sort.Ground session.symbols.userSorts
  sorts : ∀ name ∈ session.symbols.userSorts, ∃ input ∈ inputs,
      input.DeclaresSort name

theorem wellFormed_start : start.symbols.WellFormed :=
  wellFormed_empty

theorem readInputs_append (session : Session) (before after : List Input) :
    session.readInputs (before ++ after) =
      (session.readInputs before).readInputs after :=
  List.foldl_append

/-- All symbols of a session have signatures over sorts that some input
declares. -/
theorem readInputs_wellDeclared (inputs : List Input) :
    (start.readInputs inputs).WellDeclared inputs := by
  obtain ⟨grown, sorts⟩ := readInputs_grows wellFormed_start inputs
  have wellFormed := grown.wellFormed wellFormed_start
  have nodup := grown.nodup_names List.nodup_nil
  have found {name : Text} {declaration : Declaration}
      (listed : (name, declaration) ∈
        (start.readInputs inputs).symbols.declarations) :
      (start.readInputs inputs).symbols.lookup? name = some declaration :=
    (Table.find?_eq_some_iff_of_nodup nodup).mpr listed
  have unreserved {name : Text} (builtin : isBuiltinName name = true) :
      name ∉ (start.readInputs inputs).symbols.declarations.names := by
    intro listed
    rw [wellFormed.unreserved name listed] at builtin
    cases builtin
  refine ⟨nodup, fun name declaration listed =>
    wellFormed.names name declaration (found listed),
    fun operator => unreserved operator.isBuiltinName_name, ?_, ?_, ?_⟩
  · rintro value (rfl | rfl)
    · exact unreserved (by decide)
    · exact unreserved (by decide)
  · intro declaration listed
    obtain ⟨⟨name, declaration⟩, inside, rfl⟩ := List.mem_map.mp listed
    exact List.forall_mem_cons.mpr
      ⟨wellFormed.results name declaration (found inside),
      wellFormed.arguments name declaration (found inside)⟩
  · intro name listed
    rcases sorts name listed with absurdity | declared
    · cases absurdity
    · exact declared

/-- Whatever a session reads, faulty or not, declared symbols stay at their
places with their signatures, built-in names are never declared, and the sorts
of declarations are ground. -/
theorem readInputs_keepsSignatures (before after : List Input) :
    (start.readInputs before).WellDeclared before ∧
      (start.readInputs before).symbols.Keeps
        (start.readInputs (before ++ after)).symbols := by
  refine ⟨readInputs_wellDeclared before, ?_⟩
  have grown := (readInputs_grows wellFormed_start before).1
  have wellFormed := grown.wellFormed wellFormed_start
  have laterGrown := (readInputs_grows wellFormed after).1
  rw [readInputs_append]
  exact laterGrown.keeps wellFormed (grown.nodup_names List.nodup_nil)

/-- The model is faulty at `z`; by then its functions are declared, and `x` is
defined where the formula has declared it. -/
example : (start.readInputs [.formula "(declare-const x Int)",
    .model
        "(define-fun y () Int 0)(define-fun x () Int z)"]).symbols.declarations =
      ([("x", ⟨"x", [], .int, .defined⟩), ("y", ⟨"y", [], .int, .defined⟩)] :
        List (Text × Declaration)) := by
  decide +kernel

end Session

end ModelAudit
