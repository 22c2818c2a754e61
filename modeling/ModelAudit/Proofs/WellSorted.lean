import ModelAudit.Proofs.TermInduction
import ModelAudit.Proofs.Typing

/-!
# Well-sorted terms

Reading a term establishes that each symbol has the sort of its binder or its
declaration, that applied functions and operators fit their arguments, and that
no binder has the name of an applied function.
-/

namespace ModelAudit

/-- Reading judged the head to fit arguments of these sorts. -/
def Head.Fits (symbols : SymbolTable) (scope : Scope) (indices : List Nat)
    (arguments : List SmtSort) (sort : SmtSort) : Head → Prop
  | .function name =>
    scope.find? name = none ∧ symbols.HasSignature name arguments sort
  | .operator applied =>
    applied = .constantArray ∧ sort.Ground symbols.userSorts ∨
      ∃ rule, applied.rule? = some rule ∧
        rule.resultSort applied arguments (indices.map Int.ofNat) = .ok sort

namespace Term

/-- The names of a let with the sorts of their terms. -/
def letBinders (bindings : List (Text × Term)) : Binders :=
  bindings.map fun (name, bound) => (name, bound.sort)

@[simp]
theorem map_fst_letBinders (bindings : List (Text × Term)) :
    (letBinders bindings).map Prod.fst = bindings.map Prod.fst := by
  rw [letBinders, List.map_map]
  rfl

@[simp]
theorem map_snd_letBinders (bindings : List (Text × Term)) :
    (letBinders bindings).map Prod.snd = bindings.map fun binding =>
      binding.snd.sort := by
  rw [letBinders, List.map_map]
  rfl

mutual

def WellSorted (symbols : SymbolTable) (scope : Scope) : Term → Prop
  | .literal _ => True
  | .symbol name sort =>
    scope.find? name = some sort ∨
      scope.find? name = none ∧ symbols.HasSignature name [] sort
  | .functionArray function index element =>
    symbols.HasSignature function [index] element
  | .application head indices arguments sort =>
    head.Fits symbols scope indices (arguments.map Term.sort) sort ∧
      WellSortedAll symbols scope arguments
  | .letIn bindings body =>
    WellSortedBindings symbols scope bindings ∧
      WellSorted symbols (scope.enter (letBinders bindings)) body ∧
      bindings ≠ []
  | .quantified _ binders body =>
    (∀ binder ∈ binders, binder.snd.Ground symbols.userSorts) ∧
      body.sort = .bool ∧
      WellSorted symbols (scope.enter binders) body ∧ binders ≠ []
  | .annotated inner _ => WellSorted symbols scope inner

def WellSortedAll (symbols : SymbolTable) (scope : Scope) : List Term → Prop
  | [] => True
  | first :: others =>
    WellSorted symbols scope first ∧ WellSortedAll symbols scope others

def WellSortedBindings (symbols : SymbolTable) (scope : Scope) :
    List (Text × Term) → Prop
  | [] => True
  | (_, bound) :: others =>
    WellSorted symbols scope bound ∧ WellSortedBindings symbols scope others

end

theorem wellSortedAll_iff {symbols : SymbolTable} {scope : Scope}
    {terms : List Term} :
    WellSortedAll symbols scope terms ↔
      ∀ term ∈ terms, term.WellSorted symbols scope := by
  induction terms with
  | nil => simp [WellSortedAll]
  | cons first others inductionHypothesis =>
    simp [WellSortedAll, inductionHypothesis]

theorem wellSortedBindings_iff {symbols : SymbolTable} {scope : Scope}
    {bindings : List (Text × Term)} :
    WellSortedBindings symbols scope bindings ↔
      ∀ binding ∈ bindings, binding.snd.WellSorted symbols scope := by
  induction bindings with
  | nil => simp [WellSortedBindings]
  | cons first others inductionHypothesis =>
    simp [WellSortedBindings, inductionHypothesis]

end Term

/-! ## Later tables -/

theorem Head.Fits.grow {symbols later : SymbolTable} {scope : Scope}
    {indices : List Nat} {arguments : List SmtSort} {sort : SmtSort}
    {head : Head}
    (fits : head.Fits symbols scope indices arguments sort)
    (grown : symbols.Grows later) :
    head.Fits later scope indices arguments sort := by
  cases head with
  | function name => exact ⟨fits.1, fits.2.grow grown⟩
  | operator applied =>
      rcases fits with ⟨array, ground⟩ | rule
      · exact .inl ⟨array, ground.mono grown.userSorts_subset⟩
      · exact .inr rule

/-- What is well sorted stays so when symbols are added. -/
theorem Term.WellSorted.grow {symbols later : SymbolTable}
    (grown : symbols.Grows later) (term : Term) :
    ∀ scope, term.WellSorted symbols scope → term.WellSorted later scope := by
  induction term using Term.induction with
  | literal value => exact fun _ _ => trivial
  | symbol name sort =>
      intro scope wellSorted
      rcases wellSorted with bound | ⟨unbound, signature⟩
      · exact .inl bound
      · exact .inr ⟨unbound, signature.grow grown⟩
  | functionArray function index element =>
      exact fun _ signature => SymbolTable.HasSignature.grow signature grown
  | application head indices arguments sort argumentsHypothesis =>
      intro scope wellSorted
      refine ⟨wellSorted.1.grow grown, Term.wellSortedAll_iff.mpr ?_⟩
      intro argument member
      exact argumentsHypothesis argument member scope
        (Term.wellSortedAll_iff.mp wellSorted.2 argument member)
  | letIn bindings body bindingsHypothesis bodyHypothesis =>
      intro scope wellSorted
      refine ⟨Term.wellSortedBindings_iff.mpr ?_,
        bodyHypothesis _ wellSorted.2.1, wellSorted.2.2⟩
      intro binding member
      exact bindingsHypothesis binding member scope
        (Term.wellSortedBindings_iff.mp wellSorted.1 binding member)
  | quantified quantifier binders body bodyHypothesis =>
      intro scope wellSorted
      obtain ⟨ground, sort, inner, nonempty⟩ := wellSorted
      exact ⟨fun binder member =>
        (ground binder member).mono grown.userSorts_subset, sort,
        bodyHypothesis _ inner, nonempty⟩
  | annotated inner attributes innerHypothesis => exact innerHypothesis

/-! ## Terms that have a sort -/

/-- A term with a sort is well sorted, as are all its parts. -/
theorem Term.HasSort.wellSorted {symbols : SymbolTable}
    {admitted : Literal → Prop} {scope : Scope} {term : Term} {sort : SmtSort}
    (typed : term.HasSort symbols admitted scope sort) :
    term.WellSorted symbols scope := by
  induction typed with
  | literal _ => trivial
  | bound found => exact .inl found
  | constant unbound signature => exact .inr ⟨unbound, signature⟩
  | functionArray signature => exact signature
  | call unbound signature lengths arguments argumentsHypothesis =>
      obtain rfl := Term.HasSort.sorts_eq lengths arguments
      have each :=
        (Term.forall_zip_sorts fun term _ => term.WellSorted symbols _).mp
          argumentsHypothesis
      exact ⟨⟨unbound, signature⟩, Term.wellSortedAll_iff.mpr each⟩
  | operation rule result lengths arguments argumentsHypothesis =>
      obtain rfl := Term.HasSort.sorts_eq lengths arguments
      have each :=
        (Term.forall_zip_sorts fun term _ => term.WellSorted symbols _).mp
          argumentsHypothesis
      exact ⟨.inr ⟨_, rule, result⟩, Term.wellSortedAll_iff.mpr each⟩
  | constantArray ground _ valueHypothesis =>
    exact ⟨.inl ⟨rfl, ground⟩, valueHypothesis, trivial⟩
  | @letIn scope bindings sorts body sort nonempty lengths bounds _
      boundHypothesis bodyHypothesis =>
      obtain rfl := Term.HasSort.sorts_eq lengths bounds
      have binders :
          (bindings.map Prod.fst).zip ((bindings.map Prod.snd).map Term.sort) =
          Term.letBinders bindings := by
        rw [List.map_map, List.zip_map']
        rfl
      rw [binders] at bodyHypothesis
      have each :=
        (Term.forall_zip_sorts fun term _ => term.WellSorted symbols _).mp
          boundHypothesis
      exact ⟨Term.wellSortedBindings_iff.mpr (List.forall_mem_map.mp each),
        bodyHypothesis, nonempty⟩
  | quantified nonempty ground typed bodyHypothesis =>
      exact ⟨ground, typed.sort_eq, bodyHypothesis, nonempty⟩
  | annotated _ innerHypothesis => exact innerHypothesis

/-- Every term that is read is well-sorted, whatever its literals are. -/
theorem readTerm_wellSorted {symbols : SymbolTable}
    (aliases : symbols.GroundAliases) (expression : SExpr) (scope : Scope)
    (term : Term)
    (read : readTerm symbols scope expression = .ok term) :
    term.WellSorted symbols scope := by
  have atoms : expression.Everywhere (Atom.Admitted fun _ => True) :=
    .of_forall (fun _ _ _ _ _ _ => trivial) expression
  exact (readTerm_hasSort (fun _ _ _ => trivial) aliases expression atoms
    scope term read).wellSorted

end ModelAudit
