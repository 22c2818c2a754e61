import ModelAudit.Proofs.Assembly
import ModelAudit.Proofs.Dependency
import ModelAudit.Proofs.InertTranslation
import ModelAudit.Proofs.TheoryText
import ModelAudit.Validation

/-!
# Input stays between quotes

Whatever symbols, sorts and literals a formula and a model hold, what comes from
them in a theory stands between quotes and cannot end them, begin a comment or
begin a cartouche. And the theory holds what it prints at its end in no other
place.
-/

namespace ModelAudit

open Glance

/-! ## The parts of a lemma -/

theorem HolType.passes_curriedText {arguments : List HolType} {result : HolType}
    (argumentsInert : ∀ argument ∈ arguments, argument.Inert)
    (resultInert : result.Inert) :
    Passes .other (curriedText arguments result) .other := by
  have arrow : Passes .other " \\<Rightarrow> " .other := by decide
  refine passes_join arrow
    (List.forall_mem_map.mpr (List.forall_mem_append.mpr ⟨?_, ?_⟩))
  · exact fun argument member => argumentsInert argument member .other
  · exact List.forall_mem_singleton.mpr (resultInert .other)

theorem Helper.passes_fact (helper : Helper) (before : Glance) :
    Passes before helper.fact .other := by
  cases helper <;> cases before <;> decide

set_option maxRecDepth 8000 in
theorem Helper.silent_definitionText (helper : Helper) :
    Theory.Silent helper.definitionText := by
  cases helper <;> exact Theory.silent_ofString (by decide +kernel)

namespace Obligation

open Translation

variable {pair : Session.Pair} {obligation : Obligation}

theorem faithful_rootScope (symbols : SymbolTable) :
    (rootScope symbols).Faithful := by
  intro name identifier found
  cases found

theorem inert_goal (settled : pair.Settled)
    (assembled : Assembled .default pair obligation) :
    obligation.goal.Inert := by
  obtain ⟨parts, translated, shape⟩ := assembled.goal
  rw [shape]
  refine inert_compositional.conjoin fun part member => ?_
  obtain ⟨assertion, inside, computed⟩ :=
    Outcome.exists_of_mem_mapM translated member
  exact translatesInertly assertion _ _ _ part (faithful_rootScope _)
    (settled.formula.written assertion inside) computed

/-- No equation of a theory can leave its quotes. -/
theorem passes_equation (settled : pair.Settled)
    (assembled : Assembled .default pair obligation) {equation : Text × HolTerm}
    (member : equation ∈ obligation.equations) :
    Passes .other (equationText equation) .other := by
  obtain ⟨definition, inside, computed⟩ :=
    Outcome.exists_of_mem_mapM assembled.equations member
  obtain ⟨value, translated, shape⟩ := Outcome.bind_eq_ok.mp computed
  obtain rfl := Except.ok.inj shape
  have equals : Passes .other " = " .other := by decide
  have settledDefinition := settled.definition definition
    (definition_of_find? (mem_kept.mp inside).1).1
  have valueInert :=
    inert_definitionValue settledDefinition (faithful_rootScope _) translated
  exact ((inert_identifier (.inl rfl)).inside.append equals).append
    valueInert.inside

theorem passes_distinct (assembled : Assembled .default pair obligation)
    {names : List Text} (member : names ∈ obligation.distinct) :
    Passes .other (distinctText names) .other := by
  rw [assembled.distinct] at member
  obtain ⟨⟨sort, constants⟩, _, rfl⟩ := List.mem_map.mp member
  have opening : Passes .other "distinct [" .other := by decide
  have comma : Passes .other ", " .other := by decide
  have closing : Passes .other "]" .other := by decide
  refine (opening.append (passes_join comma ?_)).append closing
  exact List.forall_mem_map.mpr fun name _ =>
    (inert_identifier (.inl rfl)).inside

/-- No identifier or type that the lemma fixes can leave its quotes. -/
theorem passes_fixed (assembled : Assembled .default pair obligation)
    {fixed : Text × List HolType × HolType}
    (member : fixed ∈ obligation.fixed) :
    Passes .other fixed.fst .other ∧
      Passes .other (HolType.curriedText fixed.snd.fst fixed.snd.snd)
        .other := by
  obtain ⟨declaration, _, computed⟩ :=
    Outcome.exists_of_mem_mapM assembled.fixed member
  obtain ⟨arguments, argumentTypes, computed⟩ := Outcome.bind_eq_ok.mp computed
  obtain ⟨result, resultType, computed⟩ := Outcome.bind_eq_ok.mp computed
  obtain rfl := Except.ok.inj computed
  refine ⟨(inert_identifier (.inl rfl)).inside,
    HolType.passes_curriedText ?_ ?_⟩
  · exact Outcome.forall_mem_of_forall₂ (Outcome.mapM_eq_ok.mp argumentTypes)
      fun _ _ _ translated => HolType.inert_of_toHol translated
  · exact HolType.inert_of_toHol resultType

/-- The assumptions of a lemma are the equations of the model and the elements
that are distinct. -/
theorem mem_assumptions {assumption : Text × List Text}
    (member : assumption ∈ obligation.assumptions) :
    assumption = (Text.ofString "model",
      obligation.equations.map equationText) ∨
      assumption = (Text.ofString "universe",
        obligation.distinct.map distinctText) := by
  have listed := (List.mem_filter.mp member).1
  simpa using listed

theorem passes_label {assumption : Text × List Text}
    (member : assumption ∈ obligation.assumptions) (before : Glance) :
    Passes before assumption.fst .other := by
  have labels :
      ∀ label ∈ (["model", "universe"] : List Text),
        Passes before label .other := by
    cases before <;> decide
  apply labels
  rcases mem_assumptions member with rfl | rfl <;> simp

/-- The scanner passes all parts of the lemma. -/
theorem inert_statement (settled : pair.Settled)
    (assembled : Assembled .default pair obligation) (method : ProofMethod) :
    (obligation.statement method).Inert where
  name := by
    show Passes .other "validation" .other
    decide
  fixes := List.forall_mem_map.mpr fun _ member => passes_fixed assembled member
  assumptions assumption member := by
    refine ⟨passes_label member .other, ?_⟩
    rcases mem_assumptions member with rfl | rfl
    · exact List.forall_mem_map.mpr fun _ => passes_equation settled assembled
    · exact List.forall_mem_map.mpr fun _ => passes_distinct assembled
  goal := (inert_goal settled assembled).inside
  facts :=
    List.forall_mem_append.mpr ⟨List.forall_mem_map.mpr fun _ => passes_label,
      List.forall_mem_map.mpr fun helper _ => helper.passes_fact⟩
  method := by
    show Passes .other method.name .other
    cases method <;> decide

/-! ## The theory -/

theorem silent_header :
    Theory.Silent
      (Theory.header Config.default.theoryName Config.default.imports) :=
  Text.not_infix_of_mentions (by decide +kernel)

/-- Whatever a formula and a model hold, nothing of it leaves the quotes of
their theory or prints its marker. -/
theorem theory_isContained {formulaText modelOutput : Text}
    (read : Session.readPair formulaText modelOutput = .ok pair)
    (assembled : ofPair .default pair = .ok obligation) :
    (obligation.theory .default).IsContained := by
  have settled := Session.readPair_settled read
  have parts := assembled_of_ofPair assembled
  obtain ⟨text, printed⟩ :=
    Option.isSome_iff_exists.mp (obligation.isSome_theory_text? .default)
  obtain ⟨statementText, shape, _⟩ := Option.bind_eq_some_iff.mp printed
  refine Theory.isContained_of_inert silent_header ?_
    (inert_statement settled parts _) shape
  exact List.forall_mem_map.mpr fun helper _ => helper.silent_definitionText

/-! ## Hostile names -/

/-- A formula over a sort named `"(*` that binds the end of a line, with a
string constant named as the marker of theories. -/
def hostileFormula : Text :=
  "(declare-sort |\"(*| 0)(declare-const |(*| |\"(*|)" ++
    "(declare-const |smtmv: goal proved| String)" ++
    "(assert (forall ((|\n| |\"(*|)) (= |(*| |\n|)))" ++
    "(assert (= |smtmv: goal proved| \"\"\"(*\"))"

/-- The formula with a model that gives the string constant a value with a quote
in it. -/
def hostileNames : Session.Pair where
  formula :=
    ⟨[.quantified .universal [("\n", .mk "\"(*" [] [])]
        (.application (.operator .equality) []
          [.symbol "(*" (.mk "\"(*" [] []),
            .symbol "\n" (.mk "\"(*" [] [])] .bool),
      .application (.operator .equality) []
        [.symbol "smtmv: goal proved" .string,
          .literal (.string "\"(*")] .bool], []⟩
  model :=
    ⟨[⟨⟨"smtmv: goal proved", [], .string, .defined⟩, [],
      .literal (.string "\"(*")⟩], []⟩
  symbols :=
    ⟨[("(*", ⟨"(*", [], .mk "\"(*" [] [], .declared⟩),
      ("smtmv: goal proved", ⟨"smtmv: goal proved", [], .string, .defined⟩)],
      [("\"(*", 0)], []⟩

theorem reached_hostileNames :
    reached hostileNames.formula hostileNames.model =
      (["smtmv: goal proved", "=", "(*"] : List Text) := by
  have first : hostileNames.formula.assertions.flatMap Term.freeNames =
      (["(*", "=", "smtmv: goal proved", "="] : List Text) := by
    decide +kernel
  rw [reached, Reachability.reachedNames, first,
    Reachability.visit_of_absent (by decide +kernel) rfl,
    Reachability.visit_of_absent (by decide +kernel) rfl,
    Reachability.visit_of_found (by decide +kernel) rfl]
  change Reachability.visit [] (["smtmv: goal proved", "=", "(*"] : List Text)
    (["="] : List Text) = _
  rw [Reachability.visit_of_seen (by decide +kernel), Reachability.visit]

/-- The names are written out, and the theory is contained. -/
theorem hostileNames_isContained :
    Session.readPair hostileFormula
          "(define-fun |smtmv: goal proved| () String \"\"\"(*\")" =
        .ok hostileNames ∧
      ∃ obligation, ofPair .default hostileNames = .ok obligation ∧
        (obligation.theory .default).statement.fixes =
          ([("v__0028_002a", "'v__0022_0028_002a"),
            ("v_smtmv_003a_0020goal_0020proved", "string")] : List
              (Text × Text)) ∧
        (obligation.theory .default).IsContained := by
  have read : Session.readPair hostileFormula
      "(define-fun |smtmv: goal proved| () String \"\"\"(*\")" =
        .ok hostileNames :=
    Outcome.toOption_eq_some_iff.mp (by decide +kernel)
  have names : (ofPair .default hostileNames).toOption.map (fun obligation =>
      (obligation.theory .default).statement.fixes) =
        some ([("v__0028_002a", "'v__0022_0028_002a"),
          ("v_smtmv_003a_0020goal_0020proved", "string")] : List
            (Text × Text)) := by
    rw [ofPair, reached_hostileNames]
    decide +kernel
  obtain ⟨obligation, found, fixes⟩ := Option.map_eq_some_iff.mp names
  have assembled := Outcome.toOption_eq_some_iff.mp found
  exact ⟨read, obligation, assembled, fixes, theory_isContained read assembled⟩

end Obligation

end ModelAudit
