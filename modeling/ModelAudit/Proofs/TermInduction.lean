import ModelAudit.Hol.Translation
import ModelAudit.Proofs.Outcome

/-!
# Induction over terms

One induction principle for terms, whose hypotheses range over the members of
the lists of arguments and bindings, and the functions on such lists as
functions on their members.
-/

namespace ModelAudit

namespace Term

/-- Structural induction; arguments and bound terms come with a hypothesis
each. -/
@[elab_as_elim]
theorem induction {motive : Term → Prop}
    (literal : ∀ value, motive (.literal value))
    (symbol : ∀ name sort, motive (.symbol name sort))
    (functionArray : ∀ function index element,
      motive (.functionArray function index element))
    (application : ∀ head indices arguments sort,
      (∀ argument ∈ arguments, motive argument) →
      motive (.application head indices arguments sort))
    (letIn : ∀ bindings body, (∀ binding ∈ bindings, motive binding.snd) →
      motive body →
      motive (.letIn bindings body))
    (quantified : ∀ quantifier binders body, motive body →
      motive (.quantified quantifier binders body))
    (annotated : ∀ inner attributes, motive inner →
      motive (.annotated inner attributes))
    (term : Term) : motive term :=
  @Term.rec motive (fun arguments => ∀ argument ∈ arguments, motive argument)
    (fun bindings => ∀ binding ∈ bindings, motive binding.snd)
    (fun binding => motive binding.snd)
    literal symbol functionArray application letIn quantified
    (fun inner attributes => annotated inner attributes)
    (fun _ member => absurd member List.not_mem_nil)
    (fun _ _ first others => List.forall_mem_cons.mpr ⟨first, others⟩)
    (fun _ member => absurd member List.not_mem_nil)
    (fun _ _ first others => List.forall_mem_cons.mpr ⟨first, others⟩)
    (fun _ _ inner => inner)
    term

theorem mem_freeNamesOfAll {name : Text} {terms : List Term} :
    name ∈ freeNamesOfAll terms ↔ ∃ term ∈ terms, name ∈ term.freeNames := by
  induction terms with
  | nil => simp [freeNamesOfAll]
  | cons first others inductionHypothesis =>
    simp [freeNamesOfAll, inductionHypothesis]

theorem mem_freeNamesOfBindings {name : Text} {bindings : List (Text × Term)} :
    name ∈ freeNamesOfBindings bindings ↔
      ∃ binding ∈ bindings, name ∈ binding.snd.freeNames := by
  induction bindings with
  | nil => simp [freeNamesOfBindings]
  | cons first others inductionHypothesis =>
    simp [freeNamesOfBindings, inductionHypothesis]

theorem mem_headsOfAll {head : Head} {terms : List Term} :
    head ∈ headsOfAll terms ↔ ∃ term ∈ terms, head ∈ term.heads := by
  induction terms with
  | nil => simp [headsOfAll]
  | cons first others inductionHypothesis =>
    simp [headsOfAll, inductionHypothesis]

theorem mem_headsOfBindings {head : Head} {bindings : List (Text × Term)} :
    head ∈ headsOfBindings bindings ↔
      ∃ binding ∈ bindings, head ∈ binding.snd.heads := by
  induction bindings with
  | nil => simp [headsOfBindings]
  | cons first others inductionHypothesis =>
    simp [headsOfBindings, inductionHypothesis]

end Term

namespace Translation

variable {vocabulary : Vocabulary} {scope : HolScope} {results : List HolTerm}

theorem terms_eq_mapM (sources : List Term) :
    terms vocabulary scope sources = sources.mapM (term vocabulary scope) := by
  induction sources with
  | nil => rfl
  | cons first others inductionHypothesis =>
    rw [terms, List.mapM_cons, inductionHypothesis]

theorem boundTerms_eq_mapM (bindings : List (Text × Term)) :
    boundTerms vocabulary scope bindings =
      bindings.mapM fun binding => term vocabulary scope binding.snd := by
  induction bindings with
  | nil => rfl
  | cons first others inductionHypothesis =>
      rw [boundTerms, List.mapM_cons, inductionHypothesis]

theorem terms_eq_ok {sources : List Term} :
    terms vocabulary scope sources = .ok results ↔
      List.Forall₂
        (fun source result => term vocabulary scope source = .ok result) sources
        results := by
  rw [terms_eq_mapM, Outcome.mapM_eq_ok]

theorem boundTerms_eq_ok {bindings : List (Text × Term)} :
    boundTerms vocabulary scope bindings = .ok results ↔
      List.Forall₂
        (fun binding result => term vocabulary scope binding.snd = .ok result)
        bindings
        results := by
  rw [boundTerms_eq_mapM, Outcome.mapM_eq_ok]

end Translation

end ModelAudit
