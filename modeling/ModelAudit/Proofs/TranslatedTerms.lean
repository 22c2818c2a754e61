import ModelAudit.Proofs.ScopeAgreement
import ModelAudit.Proofs.SettledPair
import ModelAudit.Proofs.SpelledOperators
import ModelAudit.Proofs.Subterms

/-!
# What holds of all translations

A property of HOL terms holds of all translations if it passes through the
spellings of the operators that occur, and through names, literals, lets and
binders.
-/

namespace ModelAudit

open Identifier

/-- Besides what is compositional, the property holds of names that stand for
symbols and of literals as texts write them, and passes through lets and
binders. -/
structure TranslationClosed (known : Fixity → Prop) (fits : HolType → Prop)
    (holds : HolTerm → Prop) : Prop extends Compositional known fits holds where
  name : ∀ identifier name, StandsFor identifier name → holds (.name identifier)
  literal : ∀ (value : Literal) translated, value.Written →
    Translation.literal value = .ok translated → holds translated
  letIn : ∀ equations body,
      (∀ equation ∈ equations, ∃ name, StandsFor equation.fst name) →
    (∀ equation ∈ equations, holds equation.snd) → holds body →
    holds (.letIn equations body)
  bound : ∀ binder names body,
      (∀ entry ∈ names, ∃ name, StandsFor entry.fst name) →
    (∀ entry ∈ names, fits entry.snd) → holds body →
    holds (.bound binder names body)

namespace Translation

/-- The operator is written in a known way, unless it is not spelled or has a
template. -/
def Vocabulary.Writes (vocabulary : Vocabulary) (known : Fixity → Prop)
    (operator : Operator) : Prop :=
  ∀ spelling, (vocabulary.operators operator).spelling? = some spelling →
    (∀ template, spelling.fixity ≠ .templated template) →
    spelling.fixity.Known known

theorem Vocabulary.writes_of_defaultSpelling {known : Fixity → Prop}
    {userSorts : List Text} {operator : Operator}
    (spelled : ∀ {spelling : Spelling}, operator.defaultSpelling? =
        some spelling →
      (∀ template, spelling.fixity ≠ .templated template) →
      spelling.fixity.Known known) :
    Vocabulary.Writes ⟨.default, userSorts⟩ known operator :=
  fun _ found noTemplate =>
    spelled (OperatorTable.spelling?_default operator ▸ found) noTemplate

variable {known : Fixity → Prop} {fits : HolType → Prop}
  {holds : HolTerm → Prop} {symbols : SymbolTable} {vocabulary : Vocabulary}

/-- All translations of the term have the property, if its operators are written
in known ways. -/
def AlwaysTranslates (symbols : SymbolTable) (vocabulary : Vocabulary)
    (known : Fixity → Prop) (holds : HolTerm → Prop) (source : Term) : Prop :=
  ∀ (holScope : HolScope) (scope : Scope) (sort : SmtSort)
    (translated : HolTerm),
    holScope.Faithful → source.HasSort symbols Literal.Written scope sort →
    (∀ operator ∈ source.operators, vocabulary.Writes known operator) →
    term vocabulary holScope source = .ok translated → holds translated

namespace AlwaysTranslates

theorem functionArray (closed : TranslationClosed known fits holds)
    {function : Text} {index element : SmtSort} :
    AlwaysTranslates symbols vocabulary known holds
      (.functionArray function index element) := by
  intro holScope _ _ translated faithful _ written shape
  refine closed.spell (written .functionArray List.mem_cons_self)
    (List.forall_mem_singleton.mpr ?_) shape
  exact closed.name _ function (faithful.identifier_standsFor function)

theorem application (closed : TranslationClosed known fits holds) {head : Head}
    {indices : List Nat} {arguments : List Term} {sort : SmtSort}
    (argumentsHold : ∀ argument ∈ arguments,
      AlwaysTranslates symbols vocabulary known holds argument) :
    AlwaysTranslates symbols vocabulary known holds
      (.application head indices arguments sort) := by
  intro holScope scope resultSort translated faithful typed written shape
  obtain ⟨results, resultsShape, shape⟩ := Outcome.bind_eq_ok.mp shape
  have each : ∀ result ∈ results, holds result := by
    refine Outcome.forall_mem_of_forall₂ (terms_eq_ok.mp resultsShape) ?_
    intro argument member result computed
    exact argumentsHold argument member holScope scope _ result faithful
      (typed.argument member)
      (fun operator inside => written operator
        (Term.operators_subset member inside)) computed
  cases head with
  | operator applied =>
      have own := Term.mem_operators_iff.mpr
        ⟨.application (.operator applied) indices arguments sort, .refl, rfl⟩
      exact closed.spell (written applied own) each shape
  | function name =>
      obtain rfl := Except.ok.inj shape
      exact closed.apply _ _ (closed.name _ name (.inl rfl)) each

theorem letIn (closed : TranslationClosed known fits holds)
    {bindings : List (Text × Term)} {body : Term}
    (bindingsHold : ∀ binding ∈ bindings,
      AlwaysTranslates symbols vocabulary known holds binding.snd)
    (bodyHolds : AlwaysTranslates symbols vocabulary known holds body) :
    AlwaysTranslates symbols vocabulary known holds (.letIn bindings body) := by
  intro holScope scope sort translated faithful typed written shape
  obtain ⟨values, valuesShape, shape⟩ := Outcome.bind_eq_ok.mp shape
  obtain ⟨inner, innerShape, shape⟩ := Outcome.bind_eq_ok.mp shape
  obtain rfl := Except.ok.inj shape
  have picks := holScope.picks_pick [] (letNames holScope bindings)
  have component {part : Term}
      (among : part ∈ (Term.letIn bindings body).components) :
      ∀ operator ∈ part.operators, vocabulary.Writes known operator :=
    fun operator inside => written operator (Term.operators_subset among inside)
  have each : ∀ value ∈ values, holds value := by
    refine Outcome.forall_mem_of_forall₂ (boundTerms_eq_ok.mp valuesShape) ?_
    intro binding member value computed
    exact bindingsHold binding member holScope scope _ value faithful
      (typed.boundTerm member)
      (component (List.mem_append_left _ (List.mem_map_of_mem member)))
        computed
  refine closed.letIn _ _ ?_
    (fun equation member => each _ (List.of_mem_zip member).2) ?_
  · intro equation member
    obtain ⟨pair, inside, same⟩ := List.mem_map.mp (List.of_mem_zip member).1
    exact ⟨pair.fst, same ▸ picks.standsFor pair inside⟩
  · cases typed with
    | letIn _ _ _ typedBody =>
        exact bodyHolds _ _ _ inner (faithful.bind picks) typedBody
          (component (List.mem_append_right _ (List.mem_singleton_self body)))
          innerShape

/-- Typed binders around a body that is translated inside them. -/
theorem underBinders (closed : TranslationClosed known fits holds)
    {binders : Binders} {body : Term} {binder : HolBinder} {scope : Scope}
    {sort : SmtSort} {holScope : HolScope}
    {entered : List (Text × HolType) × HolScope} {inner : HolTerm}
    (bodyHolds : AlwaysTranslates symbols vocabulary known holds body)
    (faithful : holScope.Faithful)
    (typed : body.HasSort symbols Literal.Written (scope.enter binders) sort)
    (written : ∀ operator ∈ body.operators, vocabulary.Writes known operator)
    (enteredShape : enterBinders vocabulary holScope binders = .ok entered)
    (innerShape : term vocabulary entered.snd body = .ok inner) :
    holds (.bound binder entered.fst inner) := by
  rw [HolScope.enterBinders_eq] at enteredShape
  obtain ⟨types, typesShape, enteredShape⟩ := Outcome.bind_eq_ok.mp enteredShape
  obtain rfl := Except.ok.inj enteredShape
  have picks : holScope.Picks (holScope.pickBinders binders) :=
    holScope.picks_pick [] _
  have typesFit : ∀ type ∈ types, fits type :=
    Outcome.forall_mem_of_forall₂
      (Outcome.mapM_eq_ok.mp typesShape) fun _ _ _ translated =>
      closed.ofSort _ _ _ translated
  refine closed.bound _ _ _ ?_
    (fun entry member => typesFit _ (List.of_mem_zip member).2) ?_
  · intro entry member
    obtain ⟨pair, inside, same⟩ := List.mem_map.mp (List.of_mem_zip member).1
    exact ⟨pair.fst, same ▸ picks.standsFor pair inside⟩
  · exact bodyHolds _ _ _ inner (faithful.bind picks) typed written innerShape

end AlwaysTranslates

/-- By induction on the term, with one case for each kind of term. -/
theorem alwaysTranslates (closed : TranslationClosed known fits holds)
    (source : Term) :
    AlwaysTranslates symbols vocabulary known holds source := by
  induction source using Term.induction with
  | literal value =>
      intro _ _ _ translated _ typed _ shape
      cases typed with
      | literal written => exact closed.literal value translated written shape
  | symbol name sort =>
      intro holScope _ _ translated faithful _ _ shape
      obtain rfl := Except.ok.inj shape
      exact closed.name _ name (faithful.identifier_standsFor name)
  | functionArray function index element => exact .functionArray closed
  | application head indices arguments sort argumentsHold =>
    exact .application closed argumentsHold
  | letIn bindings body bindingsHold bodyHolds =>
    exact .letIn closed bindingsHold bodyHolds
  | quantified quantifier binders body bodyHolds =>
      intro holScope _ _ translated faithful typed written shape
      obtain ⟨entered, enteredShape, shape⟩ := Outcome.bind_eq_ok.mp shape
      obtain ⟨inner, innerShape, shape⟩ := Outcome.bind_eq_ok.mp shape
      obtain rfl := Except.ok.inj shape
      cases typed with
      | quantified _ _ typedBody =>
          exact bodyHolds.underBinders closed faithful typedBody written
            enteredShape innerShape
  | annotated inner attributes innerHolds =>
      intro holScope scope _ translated faithful typed written shape
      cases typed with
      | annotated typedInner =>
          exact innerHolds _ _ _ translated faithful typedInner written shape

theorem holds_definitionValue (closed : TranslationClosed known fits holds)
    {definition : Definition} {holScope : HolScope} {value : HolTerm}
    (settled : definition.Settled symbols) (faithful : holScope.Faithful)
    (written : ∀ operator ∈ definition.body.operators,
      vocabulary.Writes known operator)
    (shape : definitionValue vocabulary holScope definition = .ok value) :
    holds value := by
  unfold definitionValue at shape
  split at shape
  · exact alwaysTranslates closed _ _ _ _ value faithful settled.written
      written shape
  · obtain ⟨entered, enteredShape, shape⟩ := Outcome.bind_eq_ok.mp shape
    obtain ⟨inner, innerShape, shape⟩ := Outcome.bind_eq_ok.mp shape
    obtain rfl := Except.ok.inj shape
    exact (alwaysTranslates closed _).underBinders closed faithful
      settled.written written enteredShape innerShape

end Translation

end ModelAudit
