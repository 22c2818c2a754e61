import ModelAudit.Proofs.FormulaDefinitions
import ModelAudit.Proofs.SortMeaning
import ModelAudit.Proofs.StableSignatures

/-!
# Hygiene of aliases

In an accepted script all sorts are read as they are meant if and only if no
alias has, in its body, a sort with the name of one of its parameters, as the
expansion of another alias can bring in.
-/

namespace ModelAudit

open SortPattern

variable {environment : SortEnvironment} {symbols later : SymbolTable}
  {expression : SExpr}

/-! ## Steps -/

theorem agreesWith_empty : SortEnvironment.empty.AgreesWith .empty where
  declared name := iff_of_false (fun found => by cases found) List.not_mem_nil
  aliases _ := .absent

theorem agreesWith_declareSort (agrees : environment.AgreesWith symbols)
    (name : Text) :
    (environment.declareSort name).AgreesWith (symbols.declareSort name 0) where
  declared other := by
    rw [SymbolTable.declareSort, SortEnvironment.declareSort,
      Table.find?_insert, List.mem_cons]
    split
    · next same => simp [same]
    · next different => simp [agrees.declared, Ne.symm different]
  aliases := agrees.aliases

/-- What is read for the body of an alias is a pattern for its function. -/
theorem exists_pattern (agrees : environment.AgreesWith symbols)
    {written : SExpr.WrittenAlias} {body : SmtSort}
    (read : readSort symbols written.params written.body = .ok body) :
    ∃ pattern : SortPattern, body = pattern.fill .simple ∧
      ∀ arguments, environment.function written arguments =
        if written.params.length = arguments.length then
          some (pattern.fill
            (valueIn (Table.ofPairs (written.params.zip arguments))))
        else none := by
  obtain ⟨pattern?, shape, meant⟩ :=
    readSort_patterned agrees written.params written.body
  rw [read] at shape
  cases pattern? with
  | none => cases shape
  | some pattern =>
      refine ⟨pattern, Option.some.inj shape, fun arguments => ?_⟩
      rw [SortEnvironment.function]
      split
      · next lengths =>
        rw [find?_zip_eq_valued lengths]
        exact meant _
      · rfl

/-- The definition of an alias that captures nothing keeps the table in
agreement. -/
theorem agreesWith_defineSort (agrees : environment.AgreesWith symbols)
    {written : SExpr.WrittenAlias} {body : SmtSort}
    (read : readSort symbols written.params written.body = .ok body)
    (free : ¬environment.Captures written) :
    (environment.defineSort written).AgreesWith
      (symbols.defineSort written.name ⟨written.params, body⟩) where
  declared := agrees.declared
  aliases name := by
    rw [SymbolTable.defineSort, SortEnvironment.defineSort, Table.find?_insert,
      Table.find?_insert]
    split
    · next same =>
      subst same
      obtain ⟨pattern, shape, applied⟩ := exists_pattern agrees read
      -- A sort in the pattern that has the name of a parameter is in every
      -- instance of the alias.
      refine .present _ _ pattern shape
        (fun named param member inside => free ?_) applied
      refine ⟨named, param, inside, _, (applied _).trans (if_pos ?_),
        mentions_fill _ member⟩
      rw [List.length_replicate]
    · exact agrees.aliases name

/-- Commands keep the table in agreement with what sorts mean, unless they
define an alias that captures. -/
theorem SortEnvironment.AgreesWith.step
    (agrees : environment.AgreesWith symbols)
    (step : Command.SortStep expression symbols later)
    (free : ∀ written, expression.definedSort? = some written →
      ¬environment.Captures written) :
    (environment.after expression).AgreesWith later := by
  rw [SortEnvironment.after]
  cases step with
  | declare name declared _ table =>
      rw [declared, table]
      exact agreesWith_declareSort agrees name
  | define written body undeclared defined read table =>
      rw [undeclared, defined, table]
      exact agreesWith_defineSort agrees read (free written defined)
  | other undeclared undefined sorts aliases =>
      rw [undeclared, undefined]
      exact ⟨by rw [sorts]; exact agrees.declared,
        by rw [aliases]; exact agrees.aliases⟩

/-! ## Capture -/

/-- The sort of single bits as a script writes it. -/
def bitSort : SExpr :=
  .list [.atom (.symbol "_" false) .start,
    .atom (.symbol "BitVec" false) .start, .atom (.numeral "1") .start] .start

/-- The alias applied to the sort of single bits. -/
def SExpr.WrittenAlias.applied (written : SExpr.WrittenAlias) : SExpr :=
  .list (.atom (.symbol written.name false) .start :: List.replicate
    written.params.length bitSort) .start

theorem readSorts_bits (symbols : SymbolTable) (count : Nat) :
    readSorts symbols [] (List.replicate count bitSort) =
      .ok (List.replicate count (.bitVec 1)) := by
  induction count with
  | zero => rfl
  | succ count inductionHypothesis =>
      have first : readSort symbols [] bitSort = .ok (.bitVec 1) := rfl
      rw [List.replicate_succ, readSorts, first, inductionHypothesis]
      rfl

theorem meanings_bits (environment : SortEnvironment) (count : Nat) :
    environment.meanings (fun _ => none) (List.replicate count bitSort) =
      some (List.replicate count (.bitVec 1)) := by
  induction count with
  | zero => rfl
  | succ count inductionHypothesis =>
      have first :
          environment.meaning (fun _ => none) bitSort = some (.bitVec 1) := rfl
      rw [List.replicate_succ, SortEnvironment.meanings, first,
        inductionHypothesis]
      rfl

/-- With a captured name an alias applied to bit-vectors is not read as it is
meant: the name is in the meaning, but not in the sort that is read. -/
theorem misread_of_captures (agrees : environment.AgreesWith symbols)
    {written : SExpr.WrittenAlias} {body : SmtSort}
    (read : readSort symbols written.params written.body = .ok body)
    (captures : environment.Captures written) :
    (readSort (symbols.defineSort written.name ⟨written.params, body⟩) []
        written.applied).toOption ≠
      (environment.defineSort written).meaning
        (fun _ => none) written.applied := by
  obtain ⟨named, param, member, sort, meant, mentions⟩ := captures
  have head : (SExpr.atom (.symbol written.name false) .start).isSymbol "_" =
      false :=
    decide_eq_false fun same => named (Option.some.inj same)
  obtain ⟨pattern, rfl, _⟩ := exists_pattern agrees read
  have isRead :
      (readSort (symbols.defineSort written.name
        ⟨written.params, pattern.fill .simple⟩)
      [] written.applied).toOption = some ((pattern.fill .simple).substitute
        (Table.ofPairs
          (written.params.zip
            (List.replicate written.params.length (.bitVec 1))))) := by
    simp [SExpr.WrittenAlias.applied, readSort, head, readSymbol, SExpr.symbol?,
      readSorts_bits, appliedSort, SymbolTable.defineSort, Table.find?_insert,
      expandAlias, SortAlias.instantiate, Except.toOption]
  have isMeant :
      (environment.defineSort written).meaning (fun _ => none) written.applied =
      some sort := by
    simp [SExpr.WrittenAlias.applied, SortEnvironment.meaning, head,
      SExpr.symbol?, meanings_bits, SortEnvironment.applied?,
      SortEnvironment.defineSort, Table.find?_insert, meant]
  rw [isRead, isMeant]
  intro same
  rw [← Option.some.inj same] at mentions
  have lengths : written.params.length =
      (List.replicate written.params.length (SmtSort.bitVec 1)).length :=
    List.length_replicate.symm
  refine not_mentions_substitute (Option.ne_none_iff_exists'.mp ?_) ?_ mentions
  · exact fun absent => (Table.find?_zip_eq_none_iff lengths).mp absent member
  · intro other value found
    obtain rfl := List.eq_of_mem_replicate (Table.mem_of_find?_zip found)
    exact SmtSort.not_mentions_bitVec

/-! ## Scripts -/

namespace Session

/-- The symbol table after commands of a formula. -/
def symbolsAfter (commands : List SExpr) : SymbolTable :=
  (runAll formulaStep ⟨start, ⟨[], []⟩⟩ commands).snd.session.symbols

/-- The commands are read without fault. -/
def Accepts (commands : List SExpr) : Prop :=
  (runAll formulaStep ⟨start, ⟨[], []⟩⟩ commands).fst = none

/-- After the commands every sort is read as it is meant, and what means no sort
is faulty. -/
def ReadsSorts (commands : List SExpr) : Prop :=
  ∀ expression, (readSort (symbolsAfter commands) [] expression).toOption =
    (SortEnvironment.ofCommands commands).meaning (fun _ => none) expression

variable {commands before : List SExpr}

theorem sortStep_of_accepts (accepts : Accepts commands)
    (within : before ++ [expression] <+: commands) :
    Command.SortStep expression (symbolsAfter before)
      (symbolsAfter (before ++ [expression])) := by
  obtain ⟨after, rfl⟩ := within
  have run : runAll formulaStep ⟨start, ⟨[], []⟩⟩
      (before ++ expression :: after) =
      (none, (runAll formulaStep ⟨start, ⟨[], []⟩⟩
        (before ++ expression :: after)).snd) :=
    Prod.ext (by simpa [Accepts] using accepts) rfl
  obtain ⟨reached, next, reaches, stepped⟩ := exists_step_of_runAll run
  have grown :=
    (runAll_formulaStep_grownBy ⟨start, ⟨[], []⟩⟩ wellFormed_start before).grown
  rw [reaches] at grown
  have wellFormed := grown.wellFormed wellFormed_start
  have step := sortStep_of_formulaStep wellFormed stepped
  rw [symbolsAfter, symbolsAfter, runAll_append reaches, reaches, runAll,
    stepped]
  exact step

theorem ofCommands_append (before : List SExpr) (expression : SExpr) :
    SortEnvironment.ofCommands (before ++ [expression]) =
      (SortEnvironment.ofCommands before).after expression := by
  rw [SortEnvironment.ofCommands, List.foldl_append]
  rfl

/-- The tables that an accepted script leads to are right about meanings, as
long as being right keeps commands from capturing names. -/
theorem agreesWith_prefix (accepts : Accepts commands)
    (free : ∀ before expression, before ++ [expression] <+: commands →
      (SortEnvironment.ofCommands before).AgreesWith (symbolsAfter before) →
      ∀ written, expression.definedSort? = some written →
        ¬(SortEnvironment.ofCommands before).Captures written) :
    ∀ before, before <+: commands →
      (SortEnvironment.ofCommands before).AgreesWith (symbolsAfter before) := by
  intro before
  -- On prefixes, each one command longer: what is read next is read over a
  -- table that agrees.
  induction before using List.reverseRecOn with
  | nil => exact fun _ => agreesWith_empty
  | append_singleton before expression inductionHypothesis =>
      intro within
      have agrees := inductionHypothesis ((List.prefix_append _ _).trans within)
      rw [ofCommands_append]
      exact agrees.step (sortStep_of_accepts accepts within)
        (free before expression within agrees)

/-- Where all sorts are read as they are meant no alias captures: it would show
in the application to single bits. -/
theorem not_captures_of_readsSorts (accepts : Accepts commands)
    (within : before ++ [expression] <+: commands)
    (agrees : (SortEnvironment.ofCommands before).AgreesWith
      (symbolsAfter before))
    (reads : ReadsSorts (before ++ [expression])) {written : SExpr.WrittenAlias}
    (defined : expression.definedSort? = some written) :
    ¬(SortEnvironment.ofCommands before).Captures written := by
  intro captures
  have same := reads written.applied
  rw [ofCommands_append, SortEnvironment.after] at same
  cases sortStep_of_accepts accepts within with
  | declare _ _ undefined _ => cases defined.symm.trans undefined
  | other _ undefined _ _ => cases defined.symm.trans undefined
  | define other body undeclared otherDefined read table =>
      obtain rfl := Option.some.inj (defined.symm.trans otherDefined)
      rw [undeclared, defined, table] at same
      exact misread_of_captures agrees read captures same

/-- In an accepted script sorts are read as they are meant, after every command,
if and only if no alias captures a name. -/
theorem readsSorts_iff (accepts : Accepts commands) :
    (∀ before, before <+: commands → ReadsSorts before) ↔
      ∀ before expression written, before ++ [expression] <+: commands →
        expression.definedSort? = some written →
          ¬(SortEnvironment.ofCommands before).Captures written := by
  constructor
  · intro reads before expression written within defined
    have agrees := agreesWith_prefix accepts
      (fun before expression within agrees _ =>
        not_captures_of_readsSorts accepts within agrees (reads _ within))
      before ((List.prefix_append _ _).trans within)
    exact not_captures_of_readsSorts accepts within agrees
      (reads _ within) defined
  · intro free before within expression
    have agrees := agreesWith_prefix accepts
      (fun before expression within _ written =>
        free before expression written within) before within
    exact readSort_eq_meaning agrees expression

/-! ## A captured name -/

/-- The parameter of `P` has the name of the sort that `Q` stands for. -/
def capturingScript : Text :=
  "(declare-sort S 0)(define-sort Q () S)(define-sort P (S) (Array S Q))(declare-const a (P Int))"

def capturingCommands : List SExpr :=
  (readExpressions capturingScript).toOption.getD []

def capturedSort : SExpr :=
  .list [.atom (.symbol "P" false) .start,
    .atom (.symbol "Int" false) .start] .start

/-- The elements of the arrays are read as integers, but they are meant to be of
the sort that `Q` stands for. -/
theorem capturingScript_misread :
    readExpressions capturingScript = .ok capturingCommands ∧
      Accepts capturingCommands ∧
      ¬(∀ before, before <+: capturingCommands → ReadsSorts before) ∧
      (readSort (symbolsAfter capturingCommands) [] capturedSort).toOption =
        some (.array .int .int) ∧
      (SortEnvironment.ofCommands capturingCommands).meaning
          (fun _ => none) capturedSort =
        some (.array .int (.simple "S")) := by
  -- One evaluation, since each of these facts reads the script.
  obtain ⟨isSome, accepted, named, meant, read, meaning⟩ :
      (readExpressions capturingScript).toOption.isSome = true ∧
      (runAll formulaStep ⟨start, ⟨[], []⟩⟩ capturingCommands).fst.isNone =
        true ∧
      (capturingCommands[2]?.bind SExpr.definedSort?).map
        (fun written => (written.name, written.params)) =
          some (("P" : Text), (["S"] : List Text)) ∧
      (capturingCommands[2]?.bind SExpr.definedSort?).bind (fun written =>
        (SortEnvironment.ofCommands (capturingCommands.take 2)).function written
          (List.replicate written.params.length (.bitVec 1))) =
            some (.array (.bitVec 1) (.simple "S")) ∧
      (readSort (symbolsAfter capturingCommands) [] capturedSort).toOption =
        some (.array .int .int) ∧
      (SortEnvironment.ofCommands capturingCommands).meaning
        (fun _ => none) capturedSort =
        some (.array .int (.simple "S")) := by decide +kernel
  have isRead : readExpressions capturingScript = .ok capturingCommands := by
    obtain ⟨commands, found⟩ := Option.isSome_iff_exists.mp isSome
    rw [capturingCommands, found, Outcome.toOption_eq_some_iff.mp found]
    rfl
  have accepts : Accepts capturingCommands :=
    Option.isNone_iff_eq_none.mp accepted
  obtain ⟨written, found, same⟩ := Option.map_eq_some_iff.mp named
  obtain ⟨name, params⟩ : written.name = "P" ∧ written.params = ["S"] :=
    Prod.mk.inj same
  obtain ⟨expression, third, defined⟩ := Option.bind_eq_some_iff.mp found
  rw [found] at meant
  refine ⟨isRead, accepts, ?_, read, meaning⟩
  rw [readsSorts_iff accepts]
  intro free
  refine free (capturingCommands.take 2) expression written ?_ defined ?_
  · have taken :
        capturingCommands.take 3 =
          capturingCommands.take 2 ++ [expression] := by
      rw [List.take_add_one, third]
      rfl
    exact taken ▸ List.take_prefix 3 _
  · refine ⟨by rw [name]; decide, "S", by rw [params]; exact List.mem_cons_self,
      _, meant, ?_⟩
    exact SmtSort.mentions_array.mpr (.inr .self)

end Session

end ModelAudit
