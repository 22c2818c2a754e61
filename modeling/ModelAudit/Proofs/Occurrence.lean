import ModelAudit.Proofs.HolParts
import ModelAudit.Proofs.ScopedTranslation

/-!
# Parts of terms under binders

A translation comes upon the parts of a term in scopes of their own. Inside
binders, a name keeps its identifier if no binder has it, and gets another one
than its global one otherwise. What is free in a part is free in the term,
unless one of these binders has it.
-/

namespace ModelAudit

open HolScope Identifier

namespace Translation

/-- The translation of a term in a scope comes upon the part in the inner scope,
inside binders with these names, the outermost first. -/
inductive ComesUpon : HolScope → Term → HolScope → List Text → Term → Prop
  | here {scope : HolScope} {part : Term} : ComesUpon scope part scope [] part
  | argument {scope inner : HolScope} {names : List Text} {part argument : Term}
      {head : Head} {indices : List Nat} {arguments : List Term}
      {sort : SmtSort} :
      argument ∈ arguments → ComesUpon scope argument inner names part →
      ComesUpon scope (.application head indices arguments sort) inner
        names part
  | boundTerm {scope inner : HolScope} {names : List Text} {part body : Term}
      {binding : Text × Term} {bindings : List (Text × Term)} :
      binding ∈ bindings → ComesUpon scope binding.snd inner names part →
      ComesUpon scope (.letIn bindings body) inner names part
  | letBody {scope inner : HolScope} {names : List Text} {part body : Term}
      {bindings : List (Text × Term)} :
      ComesUpon (scope.bind (scope.pick [] (letNames scope bindings))) body
        inner names part →
      ComesUpon scope (.letIn bindings body) inner
        (bindings.map Prod.fst ++ names) part
  | quantified {scope inner : HolScope} {names : List Text} {part body : Term}
      {quantifier : Quantifier} {binders : Binders} :
      ComesUpon (scope.bind (scope.pickBinders binders)) body inner names part →
      ComesUpon scope (.quantified quantifier binders body) inner
        (binders.map Prod.fst ++ names) part
  | annotated {scope inner : HolScope} {names : List Text} {part term : Term}
      {attributes : List (Text × Text)} :
      ComesUpon scope term inner names part →
      ComesUpon scope (.annotated term attributes) inner names part

/-! ## Identifiers inside binders -/

/-- Inside binders with the names, other names keep their identifiers, and the
names themselves do not have the identifiers that were taken outside. -/
structure Shadows (scope inner : HolScope) (names : List Text) : Prop where
  kept : ∀ name ∉ names, inner.identifier name = scope.identifier name
  shadowed : ∀ name ∈ names, escape name ∈ scope.taken →
      inner.identifier name ≠ escape name

theorem Shadows.refl (scope : HolScope) : Shadows scope scope [] where
  kept _ _ := rfl
  shadowed _ member := absurd member List.not_mem_nil

/-- Binders shadow their own names, besides those that further binders inside
shadow. -/
theorem Shadows.bind {scope inner : HolScope} {names : List Text}
    {picked : List (Text × Text)}
    (shadows : Shadows (scope.bind picked) inner names)
    (picks : scope.Picks picked) :
    Shadows scope inner (picked.map Prod.fst ++ names) where
  kept name outside := by
    rw [List.mem_append, not_or] at outside
    rw [shadows.kept name outside.2, identifier_bind_of_not_mem outside.1]
  shadowed name member taken := by
    by_cases inside : name ∈ names
    · exact shadows.shadowed name inside (scope.taken_subset_bind picked taken)
    · have bound := (List.mem_append.mp member).resolve_right inside
      rw [shadows.kept name inside]
      intro same
      have among : (scope.bind picked).identifier name ∈ picked.map Prod.snd :=
        identifier_bind_of_mem bound
      rw [same] at among
      exact picks.not_mem_taken taken among

namespace ComesUpon

variable {scope inner : HolScope} {names : List Text} {source part : Term}

theorem shadows (comes : ComesUpon scope source inner names part) :
    Shadows scope inner names := by
  induction comes with
  | here => exact .refl _
  | argument _ _ inductionHypothesis => exact inductionHypothesis
  | boundTerm _ _ inductionHypothesis => exact inductionHypothesis
  | @letBody scope inner names part body bindings _ inductionHypothesis =>
      have shadows := inductionHypothesis.bind (scope.picks_pick [] _)
      rwa [map_fst_pick, map_fst_letNames] at shadows
  | @quantified scope inner names part body quantifier binders _
      inductionHypothesis =>
      have shadows :
          Shadows scope inner
            ((scope.pickBinders binders).map Prod.fst ++ names) :=
        inductionHypothesis.bind (scope.picks_pick [] _)
      rwa [map_fst_pickBinders] at shadows
  | annotated _ inductionHypothesis => exact inductionHypothesis

/-! ## Free names -/

/-- A name that is free in a part and not bound on the way to it is free in the
whole. -/
theorem mem_freeNames {name : Text}
    (comes : ComesUpon scope source inner names part) (outside : name ∉ names)
    (named : name ∈ part.freeNames) : name ∈ source.freeNames := by
  induction comes with
  | here => exact named
  | argument member _ inductionHypothesis =>
      have free := inductionHypothesis outside named
      exact List.mem_append_left _
        (Term.mem_freeNamesOfAll.mpr ⟨_, member, free⟩)
  | boundTerm member _ inductionHypothesis =>
      have free := inductionHypothesis outside named
      exact List.mem_append_left _
        (Term.mem_freeNamesOfBindings.mpr ⟨_, member, free⟩)
  | letBody _ inductionHypothesis =>
      rw [List.mem_append, not_or] at outside
      have free := inductionHypothesis outside.2 named
      exact List.mem_append_right _
        (List.mem_filter.mpr ⟨free, by simpa using outside.1⟩)
  | quantified _ inductionHypothesis =>
      rw [List.mem_append, not_or] at outside
      have free := inductionHypothesis outside.2 named
      exact List.mem_filter.mpr ⟨free, by simpa using outside.1⟩
  | annotated _ inductionHypothesis => exact inductionHypothesis outside named

end ComesUpon

/-! ## What parts are translated to -/

/-- The parts of a term that has a sort have sorts. -/
theorem ComesUpon.hasSort {symbols : SymbolTable} {admitted : Literal → Prop}
    {scope inner : HolScope} {names : List Text} {source part : Term}
    {typing : Scope}
    {sort : SmtSort} (comes : ComesUpon scope source inner names part)
    (typed : source.HasSort symbols admitted typing sort) :
    ∃ innerTyping innerSort,
      part.HasSort symbols admitted innerTyping innerSort := by
  induction comes generalizing typing sort with
  | here => exact ⟨typing, sort, typed⟩
  | argument member _ inductionHypothesis =>
    exact inductionHypothesis (typed.argument member)
  | boundTerm member _ inductionHypothesis =>
    exact inductionHypothesis (typed.boundTerm member)
  | letBody _ inductionHypothesis =>
      cases typed with
      | letIn _ _ _ typedBody => exact inductionHypothesis typedBody
  | quantified _ inductionHypothesis =>
      cases typed with
      | quantified _ _ typedBody => exact inductionHypothesis typedBody
  | annotated _ inductionHypothesis =>
      cases typed with
      | annotated typedInner => exact inductionHypothesis typedInner

/-- Under the default spellings, an operator shows all arguments that its
signature allows for. -/
theorem partOf_spell_default {vocabulary : Vocabulary} {operator : Operator}
    {indices : List Nat} {arguments : List HolTerm} {sort : SmtSort}
    {argument whole : HolTerm}
    (default : vocabulary.operators = .default)
    (count : ∀ spelling template, operator.defaultSpelling? = some spelling →
      spelling.fixity = .templated template → arguments.length ≤ template.arity)
    (member : argument ∈ arguments)
    (shape : spell vocabulary operator indices arguments sort = .ok whole) :
    argument.PartOf whole := by
  refine partOf_spell (fun spelling template spelled templated => ?_)
    member shape
  rw [default, OperatorTable.default] at spelled
  split at spelled
  · next given found =>
    obtain rfl := Option.some.inj spelled
    exact count _ template found templated
  · cases spelled

/-- The equations of a translated let have the translated terms on their right
sides. -/
theorem snd_letEquations {scope : HolScope} {bindings : List (Text × Term)}
    {values : List HolTerm} (lengths : bindings.length = values.length) :
    ((((scope.pick [] (letNames scope bindings)).map Prod.snd).zip values).map
        Prod.snd) =
      values := by
  have picked :=
    congrArg List.length
      ((scope.map_fst_pick [] (letNames scope bindings)).trans
    (scope.map_fst_letNames bindings))
  rw [List.length_map, List.length_map, lengths] at picked
  exact List.map_snd_zip (by rw [List.length_map, picked])

/-- What a translation comes upon is translated in the inner scope, and the
translation shows the result. -/
theorem ComesUpon.translated {symbols : SymbolTable} {admitted : Literal → Prop}
    {vocabulary : Vocabulary} {scope inner : HolScope} {names : List Text}
    {source part : Term}
    {typing : Scope} {sort : SmtSort} {whole : HolTerm}
    (comes : ComesUpon scope source inner names part)
    (default : vocabulary.operators = .default)
    (typed : source.HasSort symbols admitted typing sort)
    (shape : term vocabulary scope source = .ok whole) :
    ∃ shown, term vocabulary inner part = .ok shown ∧ shown.PartOf whole := by
  induction comes generalizing typing sort whole with
  | here => exact ⟨whole, shape, .refl⟩
  | argument member _ inductionHypothesis =>
      obtain ⟨results, resultsShape, applied⟩ := Outcome.bind_eq_ok.mp shape
      have translations := terms_eq_ok.mp resultsShape
      obtain ⟨result, resultMember, computed⟩ :=
        Outcome.exists_source_of_forall₂ (.flip translations) member
      cases typed with
      | call _ _ lengths typedArguments =>
          obtain rfl := Except.ok.inj applied
          obtain ⟨shown, shownComputed, within⟩ :=
            inductionHypothesis
              (Term.HasSort.each lengths typedArguments _ member) computed
          exact ⟨shown, shownComputed,
            within.trans (.of_mem (List.mem_cons_of_mem _ resultMember))⟩
      | operation known fits lengths typedArguments =>
          obtain ⟨shown, shownComputed, within⟩ :=
            inductionHypothesis
              (Term.HasSort.each lengths typedArguments _ member) computed
          refine ⟨shown, shownComputed,
            within.trans (partOf_spell_default default ?_ resultMember
            applied)⟩
          intro spelling template spelled templated
          rw [← translations.length_eq, lengths]
          exact SignatureRule.length_le_of_resultSort fits
            (Operator.mostArguments_of_templated known spelled templated)
      | constantArray _ typedValue =>
          obtain rfl := List.mem_singleton.mp member
          obtain ⟨shown, shownComputed, within⟩ :=
            inductionHypothesis typedValue computed
          refine ⟨shown, shownComputed,
            within.trans (partOf_spell_default default ?_ resultMember
            applied)⟩
          intro spelling template spelled templated
          obtain rfl := Option.some.inj spelled
          obtain rfl := Fixity.templated.inj templated
          rw [← translations.length_eq]
          exact le_refl 1
  | boundTerm member _ inductionHypothesis =>
      obtain ⟨values, valuesShape, shape⟩ := Outcome.bind_eq_ok.mp shape
      obtain ⟨body, bodyShape, shape⟩ := Outcome.bind_eq_ok.mp shape
      obtain rfl := Except.ok.inj shape
      have translations := boundTerms_eq_ok.mp valuesShape
      obtain ⟨value, valueMember, computed⟩ :=
        Outcome.exists_source_of_forall₂ (.flip translations) member
      cases typed with
      | letIn _ lengths typedBounds _ =>
          obtain ⟨shown, shownComputed, within⟩ := inductionHypothesis
            (Term.HasSort.each lengths typedBounds _
              (List.mem_map_of_mem member)) computed
          refine ⟨shown, shownComputed, within.trans (.of_mem ?_)⟩
          rw [HolTerm.components, snd_letEquations translations.length_eq]
          exact List.mem_append_left _ valueMember
  | letBody _ inductionHypothesis =>
      obtain ⟨values, valuesShape, shape⟩ := Outcome.bind_eq_ok.mp shape
      obtain ⟨body, bodyShape, shape⟩ := Outcome.bind_eq_ok.mp shape
      obtain rfl := Except.ok.inj shape
      cases typed with
      | letIn _ _ _ typedBody =>
          obtain ⟨shown, computed, within⟩ :=
            inductionHypothesis typedBody bodyShape
          exact ⟨shown, computed, within.trans
            (.of_mem (by simp [HolTerm.components]))⟩
  | quantified _ inductionHypothesis =>
      obtain ⟨entered, enteredShape, shape⟩ := Outcome.bind_eq_ok.mp shape
      obtain ⟨body, bodyShape, shape⟩ := Outcome.bind_eq_ok.mp shape
      obtain rfl := Except.ok.inj shape
      rw [enterBinders_eq] at enteredShape
      obtain ⟨types, _, enteredShape⟩ := Outcome.bind_eq_ok.mp enteredShape
      obtain rfl := Except.ok.inj enteredShape
      cases typed with
      | quantified _ _ typedBody =>
          obtain ⟨shown, computed, within⟩ :=
            inductionHypothesis typedBody bodyShape
          exact ⟨shown, computed, within.trans
            (.of_mem (List.mem_singleton_self _))⟩
  | annotated _ inductionHypothesis =>
      cases typed with
      | annotated typedInner => exact inductionHypothesis typedInner shape

end Translation

end ModelAudit
