import Mathlib.Logic.Relation
import ModelAudit.Proofs.TermInduction
import ModelAudit.Proofs.Typing

/-!
# Parts of terms

A term is made of other terms, in arguments, in bound terms, under binders and
inside attributes. What reading, translation and the search for operators do,
they do at every part.
-/

namespace ModelAudit

open Relation

namespace Term

/-- The terms that a term is directly made of. -/
def components : Term → List Term
  | literal _ | symbol _ _ | functionArray _ _ _ => []
  | application _ _ arguments _ => arguments
  | letIn bindings body => bindings.map Prod.snd ++ [body]
  | quantified _ _ body => [body]
  | annotated inner _ => [inner]

/-- The part stands somewhere in the whole, or is the whole. -/
def PartOf (part whole : Term) : Prop :=
  ReflTransGen (fun inner outer => inner ∈ outer.components) part whole

/-- The built-in operator that a term itself applies. -/
def applied? : Term → Option Operator
  | functionArray _ _ _ => some .functionArray
  | application (.operator operator) _ _ _ => some operator
  | _ => none

variable {part whole : Term}

theorem PartOf.of_mem {component : Term} (within : part.PartOf component)
    (member : component ∈ whole.components) : part.PartOf whole :=
  ReflTransGen.tail within member

/-- What passes from a term to the terms that it is made of holds of all
parts. -/
theorem PartOf.inherit {holds : Term → Prop} (within : part.PartOf whole)
    (step : ∀ term, holds term → ∀ component ∈ term.components, holds component)
    (wholeHolds : holds whole) : holds part := by
  induction within using ReflTransGen.head_induction_on with
  | refl => exact wholeHolds
  | head member _ inductionHypothesis =>
    exact step _ inductionHypothesis _ member

/-- Induction from the terms that a term is made of. -/
@[elab_as_elim]
theorem componentInduction {motive : Term → Prop}
    (step : ∀ term, (∀ component ∈ term.components, motive component) →
      motive term)
    (term : Term) : motive term := by
  induction term using Term.induction with
  | literal _ | symbol _ _ | functionArray _ _ _ =>
      exact step _ fun _ member => absurd member List.not_mem_nil
  | application _ _ _ _ argumentsHypothesis => exact step _ argumentsHypothesis
  | letIn bindings body bindingsHypothesis bodyHypothesis =>
      refine step _
        (List.forall_mem_append.mpr
          ⟨?_, List.forall_mem_singleton.mpr bodyHypothesis⟩)
      exact List.forall_mem_map.mpr bindingsHypothesis
  | quantified _ _ _ innerHypothesis | annotated _ _ innerHypothesis =>
      exact step _ (List.forall_mem_singleton.mpr innerHypothesis)

/-- A term applies an operator itself or in one of its components. -/
theorem operator_mem_heads {operator : Operator} {term : Term} :
    .operator operator ∈ term.heads ↔
      term.applied? = some operator ∨ ∃ component ∈ term.components,
        .operator operator ∈ component.heads := by
  cases term with
  | literal _ | symbol _ _ => simp [heads, components, applied?]
  | functionArray _ _ _ => simp [heads, components, applied?, eq_comm]
  | application applied indices arguments sort =>
      cases applied <;>
        simp [heads, components, applied?, mem_headsOfAll, eq_comm]
  | letIn bindings body =>
      rw [heads, List.mem_append, mem_headsOfBindings]
      simp only [components, applied?, List.mem_append, List.mem_map,
        List.mem_singleton]
      grind
  | quantified _ _ _ | annotated _ _ => simp [heads, components, applied?]

/-- The operators that are found in a term are those that its parts apply. -/
theorem mem_operators_iff {operator : Operator} {term : Term} :
    operator ∈ term.operators ↔
      ∃ part : Term, part.PartOf term ∧ part.applied? = some operator := by
  have listed (term : Term) : operator ∈ term.operators ↔
      .operator operator ∈ term.heads := by
    rw [operators, List.mem_filterMap]
    constructor
    · rintro ⟨head, member, same⟩
      cases head with
      | operator applied => exact Option.some.inj same ▸ member
      | function name => cases same
    · exact fun member => ⟨_, member, rfl⟩
  rw [listed]
  constructor
  · intro member
    induction term using componentInduction with
    | step term inductionHypothesis =>
        rcases operator_mem_heads.mp member
          with own | ⟨component, among, within⟩
        · exact ⟨term, .refl, own⟩
        · obtain ⟨part, partOf, own⟩ :=
            inductionHypothesis component among within
          exact ⟨part, partOf.of_mem among, own⟩
  · rintro ⟨part, within, own⟩
    induction within with
    | refl => exact operator_mem_heads.mpr (.inl own)
    | tail _ among inductionHypothesis =>
        exact operator_mem_heads.mpr (.inr ⟨_, among, inductionHypothesis⟩)

theorem operators_subset {component term : Term}
    (among : component ∈ term.components) :
    component.operators ⊆ term.operators := by
  intro operator member
  obtain ⟨part, within, own⟩ := mem_operators_iff.mp member
  exact mem_operators_iff.mpr ⟨part, within.of_mem among, own⟩

end Term

end ModelAudit
