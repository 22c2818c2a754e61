import ModelAudit.Proofs.OperatorMeaning
import ModelAudit.Proofs.Subterms

/-!
# Sorts of terms are ground

Whatever sort an operator gives an application is ground if the sorts of the
arguments are, and so are the sorts of all parts of a term over declared
symbols.
-/

namespace ModelAudit

namespace SmtSort

variable {names : List Text} {sort : SmtSort}

theorem Ground.width?_pos {width : Int} (ground : sort.Ground names)
    (found : sort.width? = some width) : 0 < width := by
  cases ground with
  | basic _ | named _ | array _ _ => cases found
  | bitVec positive =>
      obtain rfl := Option.some.inj found
      exact positive

theorem Ground.arrayParts? {index element : SmtSort}
    (ground : sort.Ground names)
    (found : sort.arrayParts? = some (index, element)) :
    index.Ground names ∧ element.Ground names := by
  cases ground with
  | basic _ | named _ | bitVec _ => cases found
  | array indexGround elementGround =>
      obtain ⟨rfl, rfl⟩ := Prod.mk.inj (Option.some.inj found)
      exact ⟨indexGround, elementGround⟩

end SmtSort

namespace SignatureRule

variable {names : List Text} {operator : Operator} {arguments : List SmtSort}
  {indices : List Int} {sort : SmtSort}

/-- The sort that a rule gives whatever the arguments are, if it is written in
the rule. -/
def fixedResult? : SignatureRule → Option SmtSort
  | conversion _ result | strings _ result | fixed _ result => some result
  | _ => none

/-- An operator makes ground sorts of ground sorts. -/
theorem ground_resultSort {rule : SignatureRule}
    (fixedGround : ∀ result, rule.fixedResult? = some result →
      result.Ground names)
    (fits : rule.resultSort operator arguments indices = .ok sort)
    (ground : ∀ argument ∈ arguments, argument.Ground names)
    (naturals : ∀ index ∈ indices, 0 ≤ index) : sort.Ground names := by
  have common {shared : SmtSort} (nonempty : arguments ≠ [])
      (sorts : ∀ argument ∈ arguments, argument = shared) :
        shared.Ground names := by
    obtain ⟨first, member⟩ := List.exists_mem_of_ne_nil arguments nonempty
    exact sorts first member ▸ ground first member
  have truth : SmtSort.bool.Ground names := .basic (by decide)
  cases gives_of_resultSort fits with
  | booleans | comparison => exact truth
  | conditional => exact ground sort (by simp)
  | numbers _ nonempty sorts _ =>
      split
      · exact truth
      · exact common nonempty sorts
  | bitVectors _ nonempty sorts _ =>
      split
      · exact truth
      · exact common nonempty sorts
  | concatenation leftWide rightWide =>
      have left := (ground _ (by simp)).width?_pos leftWide
      have right := (ground _ (by simp)).width?_pos rightWide
      exact .bitVec (by omega)
  | extraction _ _ ordered _ => exact .bitVec (by omega)
  | extension wide =>
      have positive := (ground _ (by simp)).width?_pos wide
      have natural := naturals _ (List.mem_singleton_self _)
      exact .bitVec (by omega)
  | select parts => exact ((ground _ (by simp)).arrayParts? parts).2
  | store => exact ground sort (by simp)
  | conversion | strings | fixed => exact fixedGround sort rfl

end SignatureRule

theorem Operator.ground_fixedResult? {names : List Text} {operator : Operator}
    {rule : SignatureRule} (known : operator.rule? = some rule)
    {result : SmtSort}
    (written : rule.fixedResult? = some result) : result.Ground names := by
  cases operator <;> cases known <;> cases written <;> exact .basic (by decide)

/-! ## Terms -/

variable {symbols : SymbolTable} {admitted : Literal → Prop}

theorem Literal.InRange.ground_sort {names : List Text} {value : Literal}
    (inRange : value.InRange) : value.sort.Ground names := by
  cases value with
  | bitVector value width => exact .bitVec (Int.natCast_pos.mpr inRange.1)
  | bool _ | integer _ | decimal _ | string _ => exact .basic (by decide)

private theorem forall_mem_of_zip {Left Right : Type} {lefts : List Left}
    {rights : List Right} {holds : Right → Prop}
    (lengths : rights.length ≤ lefts.length)
    (each : ∀ pair ∈ lefts.zip rights, holds pair.snd) :
    ∀ right ∈ rights, holds right := by
  rw [← List.map_snd_zip lengths]
  exact List.forall_mem_map.mpr each

namespace Term

/-- The sort of a term is ground, as those of binders and signatures are. -/
theorem HasSort.ground {scope : Scope} {term : Term} {sort : SmtSort}
    (typed : term.HasSort symbols Literal.InRange scope sort)
    (wellFormed : symbols.WellFormed)
    (ground : scope.Ground symbols.userSorts) :
    sort.Ground symbols.userSorts := by
  induction typed with
  | @literal _ value inRange => exact inRange.ground_sort
  | bound found => exact ground _ _ found
  | constant _ signature =>
      obtain ⟨declaration, found, _, rfl⟩ := signature
      exact wellFormed.results _ _ found
  | functionArray signature =>
      obtain ⟨declaration, found, arguments, rfl⟩ := signature
      exact .array (wellFormed.arguments _ _ found _ (by simp [arguments]))
        (wellFormed.results _ _ found)
  | call _ signature _ _ _ =>
      obtain ⟨declaration, found, _, rfl⟩ := signature
      exact wellFormed.results _ _ found
  | operation known fits lengths _ argumentsHypothesis =>
      refine SignatureRule.ground_resultSort
        (fun _ written => Operator.ground_fixedResult? known written) fits ?_ ?_
      · exact forall_mem_of_zip (Nat.le_of_eq lengths.symm)
          fun typed member => argumentsHypothesis typed member ground
      · exact List.forall_mem_map.mpr fun index _ => Int.natCast_nonneg index
  | constantArray arrayGround _ _ => exact arrayGround
  | letIn _ lengths _ _ boundHypothesis bodyHypothesis =>
      have boundGround := forall_mem_of_zip (Nat.le_of_eq lengths.symm)
        fun typed member => boundHypothesis typed member ground
      exact bodyHypothesis (ground.enter fun binder member =>
        boundGround _ (List.of_mem_zip member).2)
  | quantified _ _ _ _ => exact .basic (by decide)
  | annotated _ innerHypothesis => exact innerHypothesis ground

/-- The term has a sort over the declared symbols, in a scope of ground
sorts. -/
def SortedOver (symbols : SymbolTable) (term : Term) : Prop :=
  ∃ scope sort, scope.Ground symbols.userSorts ∧
    term.HasSort symbols Literal.InRange scope sort

namespace SortedOver

variable {term : Term}

theorem ground_sort (sorted : term.SortedOver symbols)
    (wellFormed : symbols.WellFormed) :
    term.sort.Ground symbols.userSorts := by
  obtain ⟨scope, sort, ground, typed⟩ := sorted
  exact typed.sort_eq ▸ typed.ground wellFormed ground

/-- The direct parts of a term that is sorted over the declared symbols are
sorted over them, too. -/
theorem component (sorted : term.SortedOver symbols)
    (wellFormed : symbols.WellFormed) :
    ∀ component ∈ term.components, component.SortedOver symbols := by
  obtain ⟨scope, sort, ground, typed⟩ := sorted
  cases term with
  | literal _ | symbol _ _ | functionArray _ _ _ =>
    exact fun _ member => (nomatch member)
  | application _ _ _ _ =>
    exact fun _ member => ⟨scope, _, ground, typed.argument member⟩
  | letIn bindings body =>
      refine List.forall_mem_append.mpr
        ⟨List.forall_mem_map.mpr fun binding member =>
          ⟨scope, _, ground, typed.boundTerm member⟩,
            List.forall_mem_singleton.mpr ?_⟩
      cases typed with
      | letIn _ lengths typedBounds typedBody =>
          have boundGround := forall_mem_of_zip (Nat.le_of_eq lengths.symm)
            fun pair member =>
              (typedBounds pair member).ground wellFormed ground
          exact ⟨_, _, ground.enter fun binder member =>
            boundGround _ (List.of_mem_zip member).2, typedBody⟩
  | quantified _ binders body =>
      cases typed with
      | quantified _ bindersGround typedBody =>
          exact List.forall_mem_singleton.mpr ⟨_, _, ground.enter bindersGround,
            typedBody⟩
  | annotated inner _ =>
      cases typed with
      | annotated typedInner =>
        exact List.forall_mem_singleton.mpr ⟨_, _, ground, typedInner⟩

theorem part {part : Term} (sorted : term.SortedOver symbols)
    (wellFormed : symbols.WellFormed) (within : part.PartOf term) :
    part.SortedOver symbols :=
  within.inherit (fun _ sorted => sorted.component wellFormed) sorted

theorem binders {quantifier : Quantifier} {binders : Binders} {body : Term}
    (sorted : (quantified quantifier binders body).SortedOver symbols) :
    ∀ binder ∈ binders, binder.snd.Ground symbols.userSorts := by
  obtain ⟨scope, sort, _, typed⟩ := sorted
  cases typed with
  | quantified _ bindersGround _ => exact bindersGround

end SortedOver

end Term

end ModelAudit
