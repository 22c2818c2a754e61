import ModelAudit.Proofs.ContainedInput
import ModelAudit.Proofs.FunctionArrays
import ModelAudit.Proofs.HelperClosure
import ModelAudit.Proofs.HelperTerms

/-!
# Helpers that a theory carries

A theory defines the helpers of the operators that its lemma applies, and what
these refer to, each one once and after those that it mentions. Its proof
unfolds them all.
-/

namespace ModelAudit

open Relation Translation

/-! ## Commands that define constants -/

namespace Theory

/-- The first word of a command that defines a constant; the constant is the
next word. -/
def keywords : List Text :=
  ["definition", "fun", "function"]

/-- The command defines the constant. -/
def Defines (command constant : Text) : Prop :=
  ∃ keyword ∈ keywords, [keyword, constant] <+: Text.runs command

instance (command constant : Text) : Decidable (Defines command constant) :=
  inferInstanceAs
    (Decidable (∃ keyword ∈ keywords, [keyword, constant] <+:
      Text.runs command))

/-- The fact is what HOL calls the equations of the constant that the command
defines. -/
def Unfolds (command fact : Text) : Prop :=
  ∃ constant, Defines command constant ∧
    fact = constant ++ (if command.startsWith "definition" then "_def"
      else ".simps" : Text)

/-- A command defines one constant. -/
theorem Defines.unique {command left right : Text}
    (first : Defines command left) (second : Defines command right) :
    left = right := by
  obtain ⟨_, _, _, firstShape⟩ := first
  obtain ⟨_, _, rest, secondShape⟩ := second
  rw [← secondShape] at firstShape
  simp only [List.cons_append, List.nil_append, List.cons.injEq] at firstShape
  exact firstShape.2.1

/-- What a theory carries if its lemma needs the helpers. -/
structure CarriesHelpers (theory : Theory) (needs : Helper → Prop) : Prop where
  once : ∀ helper, needs helper → theory.prelude.count helper.definitionText = 1
  never : ∀ helper, ¬needs helper → helper.definitionText ∉ theory.prelude
  only : ∀ command ∈ theory.prelude, ∃ helper : Helper,
      command = helper.definitionText
  /-- A command mentions the constant that it defines and those defined
  before. -/
  ordered : ∀ before command after,
      theory.prelude = before ++ command :: after →
    command.UsesOnly fun word =>
      Defines command word ∨ ∃ earlier ∈ before, Defines earlier word
  facts : ∃ unfolding, List.Forall₂ Unfolds theory.prelude unfolding ∧
    theory.statement.facts = theory.statement.assumptions.map Prod.fst ++
      unfolding
  /-- The lemma mentions constants that the theory defines. -/
  defined : ∀ proposition ∈
      theory.statement.goal :: theory.statement.assumptions.flatMap Prod.snd,
    proposition.UsesOnly fun word =>
      ∃ command ∈ theory.prelude, Defines command word
  /-- The definitions stand before the lemma, after the header. -/
  placed : ∃ statementText rest, theory.statement.text? = some statementText ∧
    theory.text? =
        some (Text.join "\n\n"
          (header theory.name theory.imports :: theory.prelude) ++
      ("\n\n" ++ statementText ++ rest))

end Theory

/-- The code points of a text are found faster in a list of characters than in a
string. -/
theorem Text.holds_ofString (holds : Text → Prop) {characters : List Char}
    (found : holds (characters.map CodePoint.ofChar)) :
    holds (ofString (String.ofList characters)) := by
  rw [ofString, String.toList_ofList]
  exact found

namespace Helper

open Theory

/-- The command defines the helper's constant, by equations as it says, and
mentions besides it those that the helper refers to. -/
structure IsDefinedBy (helper : Helper) (command : Text) : Prop where
  defines : Defines command helper.name
  keyword : command.startsWith "definition" = !helper.isRecursive
  mentions : command.UsesOnly fun word =>
    word = helper.name ∨ ∃ used ∈ helper.dependencies, word = used.name

instance (helper : Helper) (command : Text) :
    Decidable (helper.IsDefinedBy command) :=
  decidable_of_iff (Defines command helper.name ∧
      command.startsWith "definition" = !helper.isRecursive ∧
      command.UsesOnly fun word =>
        word = helper.name ∨ ∃ used ∈ helper.dependencies, word = used.name)
    ⟨fun ⟨defines, keyword, mentions⟩ => ⟨defines, keyword, mentions⟩,
      fun ⟨defines, keyword, mentions⟩ => ⟨defines, keyword, mentions⟩⟩

set_option maxRecDepth 8000 in
theorem isDefinedBy_definitionText (helper : Helper) :
    helper.IsDefinedBy helper.definitionText := by
  cases helper <;> exact Text.holds_ofString (IsDefinedBy _) (by decide +kernel)

theorem unfolds_fact (helper : Helper) :
    Unfolds helper.definitionText helper.fact := by
  refine ⟨helper.name, helper.isDefinedBy_definitionText.defines, ?_⟩
  rw [helper.isDefinedBy_definitionText.keyword, fact]
  cases helper.isRecursive <;> rfl

theorem ofName?_name (helper : Helper) : ofName? helper.name = some helper := by
  cases helper <;> decide +kernel

theorem definitionText_injective : Function.Injective definitionText := by
  intro left right same
  have defines := right.isDefinedBy_definitionText.defines
  rw [← same] at defines
  have names := left.isDefinedBy_definitionText.defines.unique defines
  exact Option.some.inj (by rw [← ofName?_name left, names, ofName?_name right])

end Helper

/-! ## The helpers of a pair -/

namespace Session

/-- Some assertion or kept body applies an operator whose spelling lists the
helper. -/
def Pair.Lists (pair : Pair) (helper : Helper) : Prop :=
  ∃ (params : Binders) (source part : Term) (operator : Operator)
    (spelling : Spelling),
    pair.Poses params source ∧ part.PartOf source ∧
    part.applied? = some operator ∧
    operator.defaultSpelling? = some spelling ∧ helper ∈ spelling.helpers

/-- The helper is listed, or one that is listed refers to it, directly or
not. -/
def Pair.Needs (pair : Pair) (helper : Helper) : Prop :=
  ∃ listed, pair.Lists listed ∧ ReflTransGen Helper.RefersTo listed helper

end Session

namespace Obligation

open Session

variable {pair : Pair} {obligation : Obligation} {helper : Helper}

/-- The helpers that are listed are those of the operators' spellings. -/
theorem mem_helpersOf {table : OperatorTable} {operators : List Operator}
    {listed : List Helper} (found : helpersOf table operators = .ok listed) :
    helper ∈ listed ↔ ∃ operator ∈ operators, ∃ spelling,
      (table operator).spelling? = some spelling ∧
      helper ∈ spelling.helpers := by
  obtain ⟨lists, mapped, shape⟩ := Outcome.bind_eq_ok.mp found
  obtain rfl := Except.ok.inj shape
  rw [List.mem_flatten]
  constructor
  · rintro ⟨helpers, member, inside⟩
    obtain ⟨operator, among, computed⟩ :=
      Outcome.exists_of_mem_mapM mapped member
    split at computed
    · next spelling spelled =>
      obtain rfl := Except.ok.inj computed
      exact ⟨operator, among, spelling, spelled, inside⟩
    · cases computed
  · rintro ⟨operator, among, spelling, spelled, inside⟩
    obtain ⟨helpers, member, computed⟩ :=
      Outcome.exists_mem_of_mapM mapped among
    rw [spelled] at computed
    obtain rfl := Except.ok.inj computed
    exact ⟨spelling.helpers, member, inside⟩

/-- The helpers are those that the pair needs. -/
theorem mem_helpers (assembled : ofPair .default pair = .ok obligation) :
    helper ∈ obligation.helpers ↔ pair.Needs helper := by
  obtain ⟨listed, found, shape⟩ := helpers_of_ofPair assembled
  have mem_listed (helper : Helper) : helper ∈ listed ↔ pair.Lists helper := by
    simp only [mem_helpersOf found, List.mem_flatMap, Pair.mem_posed,
      Term.mem_operators_iff, OperatorTable.spelling?_default, Pair.Lists]
    grind
  rw [shape, Helper.mem_closure, Pair.Needs]
  simp only [mem_listed]

theorem nodup_helpers (assembled : ofPair .default pair = .ok obligation) :
    obligation.helpers.Nodup := by
  obtain ⟨listed, _, shape⟩ := helpers_of_ofPair assembled
  exact shape ▸ Helper.nodup_closure listed

/-- An operator of the lemma is spelled with constants of its helpers. -/
theorem writes_of_poses (assembled : ofPair .default pair = .ok obligation)
    {params : Binders} {source : Term} (poses : pair.Poses params source) :
    ∀ operator ∈ source.operators, (vocabulary .default pair.symbols).Writes
      (Fixity.UsesOnly fun word => ∃ helper ∈ obligation.helpers,
        word = helper.name) operator := by
  intro operator member spelling found noTemplate
  obtain ⟨part, within, applied⟩ := Term.mem_operators_iff.mp member
  have known : operator.defaultSpelling? = some spelling :=
    OperatorTable.spelling?_default operator ▸ found
  refine ((Operator.usesOnly_defaultSpelling known noTemplate).mono ?_).known
  rintro word ⟨helper, listed, same⟩
  exact ⟨helper, (mem_helpers assembled).mpr
    ⟨helper, ⟨params, source, part, operator, spelling, poses, within, applied,
      known, listed⟩,
      .refl⟩, same⟩

/-! ## What the lemma mentions -/

variable {allowed : Text → Prop}

theorem usesOnly_distinct (assembled : Assembled .default pair obligation)
    {names : List Text} (member : names ∈ obligation.distinct) :
    (distinctText names).UsesOnly allowed := by
  rw [assembled.distinct] at member
  obtain ⟨⟨sort, constants⟩, _, rfl⟩ := List.mem_map.mp member
  have opening : ("distinct [" : Text).UsesOnly fun _ => False := by decide
  have comma : Text.IsMark ", " := by decide
  have closing : Text.IsMark "]" := by decide
  refine closing.after
    (opening.of_none.append_of_last (Text.usesOnly_join comma ?_) (by decide))
  exact List.forall_mem_map.mpr fun name _ =>
    Identifier.StandsFor.usesOnly (.inl rfl)

section Spelled

variable (settled : pair.Settled)
  (assembled : Assembled .default pair obligation)
  (writes : ∀ params source, pair.Poses params source →
    ∀ operator ∈ source.operators,
    (vocabulary .default pair.symbols).Writes
      (Fixity.UsesOnly allowed) operator)

include settled assembled writes

/-- If the spellings of all operators mention allowed constants only, so does
the goal. -/
theorem usesOnly_goal : obligation.goal.UsesOnly allowed := by
  obtain ⟨parts, translated, shape⟩ := assembled.goal
  rw [shape]
  refine (usesOnly_compositional allowed).conjoin fun part member => ?_
  obtain ⟨assertion, inside, computed⟩ :=
    Outcome.exists_of_mem_mapM translated member
  exact alwaysTranslates (usesOnly_closed allowed) assertion _ _ _ part
    (faithful_rootScope _) (settled.formula.written assertion inside)
    (writes [] assertion (.assertion inside)) computed

/-- If the spellings of all operators mention allowed constants only, so do the
equations of kept definitions. -/
theorem usesOnly_equation {equation : Text × HolTerm}
    (member : equation ∈ obligation.equations) :
    (equationText equation).UsesOnly allowed := by
  obtain ⟨definition, inside, computed⟩ :=
    Outcome.exists_of_mem_mapM assembled.equations member
  obtain ⟨value, translated, shape⟩ := Outcome.bind_eq_ok.mp computed
  obtain rfl := Except.ok.inj shape
  have equals : Text.IsMark " = " := by decide
  have settledDefinition := settled.definition definition
    (definition_of_find? (mem_kept.mp inside).1).1
  have valueUses :=
    holds_definitionValue (usesOnly_closed allowed) settledDefinition
      (faithful_rootScope _)
      (writes definition.params definition.body (.body inside)) translated
  exact equals.between (Identifier.StandsFor.usesOnly (.inl rfl)) valueUses

/-- The lemma mentions no other constants than its operators are spelled
with. -/
theorem usesOnly_propositions :
    ∀ proposition ∈ obligation.goal.text :: obligation.assumptions.flatMap
        Prod.snd,
      proposition.UsesOnly allowed := by
  refine List.forall_mem_cons.mpr ⟨usesOnly_goal settled assembled writes, ?_⟩
  intro proposition member
  obtain ⟨assumption, listed, inside⟩ := List.mem_flatMap.mp member
  rcases mem_assumptions listed with rfl | rfl
  · obtain ⟨equation, among, rfl⟩ := List.mem_map.mp inside
    exact usesOnly_equation settled assembled writes among
  · obtain ⟨names, among, rfl⟩ := List.mem_map.mp inside
    exact usesOnly_distinct assembled among

end Spelled

/-! ## The theory -/

/-- A command of the theory mentions those constants of helpers that it defines
or that earlier commands define. -/
theorem theory_ordered (assembled : ofPair .default pair = .ok obligation)
    {config : Config} {before after : List Text} {command : Text}
    (split : (obligation.theory config).prelude = before ++ command :: after) :
    command.UsesOnly fun word =>
      Theory.Defines command word ∨
        ∃ earlier ∈ before, Theory.Defines earlier word := by
  obtain ⟨listed, _, shape⟩ := helpers_of_ofPair assembled
  have split :
      (Helper.closure listed).map Helper.definitionText =
        before ++ command :: after :=
    shape ▸ split
  obtain ⟨first, others, helpers, rfl, rest⟩ := List.map_eq_append_iff.mp split
  obtain ⟨helper, last, rfl, rfl, rfl⟩ := List.map_eq_cons_iff.mp rest
  refine helper.isDefinedBy_definitionText.mentions.mono ?_
  rintro word (rfl | ⟨used, refers, rfl⟩)
  · exact .inl helper.isDefinedBy_definitionText.defines
  · have earlier := Helper.mem_before_of_refersTo helpers refers
    exact .inr ⟨_, List.mem_map_of_mem earlier,
      used.isDefinedBy_definitionText.defines⟩

/-- The theory of a pair carries the helpers that the pair needs, in an order in
which each constant is defined before it is used, and its proof unfolds them in
this order. -/
theorem theory_carriesHelpers {formulaText modelOutput : Text}
    (read : readPair formulaText modelOutput = .ok pair)
    (assembled : ofPair .default pair = .ok obligation) (config : Config) :
    (obligation.theory config).CarriesHelpers pair.Needs where
  once helper needed := by
    have member := List.mem_map_of_mem (f := Helper.definitionText)
      ((mem_helpers assembled).mpr needed)
    exact List.count_eq_one_of_mem
      ((nodup_helpers assembled).map Helper.definitionText_injective) member
  never helper unneeded member := by
    obtain ⟨other, inside, same⟩ := List.mem_map.mp member
    obtain rfl := Helper.definitionText_injective same
    exact unneeded ((mem_helpers assembled).mp inside)
  only command member := by
    obtain ⟨helper, _, same⟩ := List.mem_map.mp member
    exact ⟨helper, same.symm⟩
  ordered _ _ _ split := theory_ordered assembled split
  facts := by
    refine ⟨obligation.helpers.map Helper.fact, ?_, rfl⟩
    rw [theory, List.forall₂_map_left_iff, List.forall₂_map_right_iff]
    exact List.forall₂_same.mpr fun helper _ => helper.unfolds_fact
  defined proposition member := by
    have uses :=
      usesOnly_propositions (readPair_settled read)
        (assembled_of_ofPair assembled)
      (fun _ _ poses => writes_of_poses assembled poses) proposition member
    refine uses.mono ?_
    rintro word ⟨helper, inside, rfl⟩
    exact ⟨_, List.mem_map_of_mem inside,
      helper.isDefinedBy_definitionText.defines⟩
  placed := by
    obtain ⟨text, printed⟩ :=
      Option.isSome_iff_exists.mp (obligation.isSome_theory_text? config)
    obtain ⟨statementText, shape, _⟩ := Option.bind_eq_some_iff.mp printed
    refine ⟨statementText, Theory.markerLead ++
      (Theory.provedMarker ++ "\"\\<close>\n\nend\n"),
      shape, ?_⟩
    rw [Theory.text?_eq shape, Theory.lead]
    simp only [List.append_assoc]

/-! ## Helpers of two operators -/

/-- A formula that applies an operator to a bound term. -/
def remainderFormula : Text :=
  "(declare-const x Int)(declare-const y Int)(assert (let ((m (mod x 3))) (= m 0)))"

/-- A model that applies operators in two definitions, of which one is left
out. -/
def positionModel : Text :=
  "(define-fun x () Int (str.indexof \"ab\" \"b\" 0))" ++
    "(define-fun y () Int (str.len (str.from_int 1)))"

def remainderOfPosition : Pair where
  formula :=
    ⟨[.letIn [("m", .application (.operator .modulus) []
        [.symbol "x" .int, .literal (.integer 3)] .int)]
      (.application (.operator .equality) [] [.symbol "m" .int,
        .literal (.integer 0)] .bool)], []⟩
  model :=
    ⟨[⟨⟨"x", [], .int, .defined⟩, [], .application (.operator .indexOf) []
        [.literal (.string "ab"), .literal (.string "b"),
          .literal (.integer 0)] .int⟩,
      ⟨⟨"y", [], .int, .defined⟩, [], .application (.operator .stringLength) []
        [.application (.operator .stringFromInt) []
          [.literal (.integer 1)] .string] .int⟩], []⟩
  symbols :=
    ⟨[("x", ⟨"x", [], .int, .defined⟩), ("y", ⟨"y", [], .int, .defined⟩)], [],
      []⟩

theorem reached_remainderOfPosition :
    reached remainderOfPosition.formula remainderOfPosition.model =
      (["=", "mod", "str.indexof", "x"] : List Text) := by
  have first : remainderOfPosition.formula.assertions.flatMap Term.freeNames =
      (["x", "mod", "="] : List Text) := by
    decide +kernel
  rw [reached, Reachability.reachedNames, first,
    Reachability.visit_of_found (by decide +kernel) rfl]
  change Reachability.visit _ (["x"] : List Text)
    (["str.indexof", "mod", "="] : List Text) = _
  rw [Reachability.visit_of_absent (by decide +kernel) rfl,
    Reachability.visit_of_absent (by decide +kernel) rfl,
    Reachability.visit_of_absent (by decide +kernel) rfl, Reachability.visit]

/-- The theory carries what the two operators in use need, and nothing of the
definition that is left out. -/
theorem remainderOfPosition_carriesHelpers :
    readPair remainderFormula positionModel = .ok remainderOfPosition ∧
      ∃ obligation, ofPair .default remainderOfPosition = .ok obligation ∧
        (obligation.theory .default).prelude =
          [Helper.division, .modulus, .prefixOf, .stringFind, .indexOf].map
            Helper.definitionText ∧
        (obligation.theory .default).statement.facts =
          (["model", "smt_div_def", "smt_mod_def", "smt_str_prefixof_def",
            "smt_str_find.simps", "smt_str_indexof_def"] : List Text) ∧
        (obligation.theory .default).CarriesHelpers
          remainderOfPosition.Needs := by
  have read : readPair remainderFormula positionModel =
      .ok remainderOfPosition :=
    Outcome.toOption_eq_some_iff.mp (by decide +kernel)
  have parts :
      (ofPair .default remainderOfPosition).toOption.map (fun obligation =>
        (obligation.helpers, (obligation.theory .default).statement.facts)) =
      some ([Helper.division, .modulus, .prefixOf, .stringFind, .indexOf],
        (["model", "smt_div_def", "smt_mod_def", "smt_str_prefixof_def",
          "smt_str_find.simps", "smt_str_indexof_def"] : List Text)) := by
    rw [ofPair, reached_remainderOfPosition]
    decide +kernel
  obtain ⟨obligation, assembled, shapes⟩ := Option.map_eq_some_iff.mp parts
  obtain ⟨helpers, facts⟩ := Prod.mk.inj shapes
  have ofPair := Outcome.toOption_eq_some_iff.mp assembled
  exact ⟨read, obligation, ofPair,
    congrArg (List.map Helper.definitionText) helpers, facts,
    theory_carriesHelpers read ofPair .default⟩

end Obligation

end ModelAudit
