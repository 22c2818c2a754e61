import Mathlib.Data.Fintype.Order
import Mathlib.Order.WellFounded
import ModelAudit.Proofs.Denotation
import ModelAudit.Proofs.SettledPair

/-!
# Extensions by definitions

Definitions that do not make use of themselves determine what the defined
symbols denote: what the other symbols denote has one extension that satisfies
all equations. The extension keeps to the signatures if the other symbols do.
-/

namespace ModelAudit

open Relation

namespace Unfolding

/-- No symbol is made use of by its own definition, directly or through others.
A function taken as an array is made use of whatever binders are around it. -/
def Acyclic (definitions : List Definition) : Prop :=
  ∀ name, ¬TransGen (Leads Definition.uses (definitionTable definitions))
    name name

end Unfolding

/-- Only finitely many symbols have definitions, so without cycles all paths
end. -/
theorem Unfolding.Acyclic.wellFounded {definitions : List Definition}
    (acyclic : Unfolding.Acyclic definitions) :
    WellFounded fun later earlier =>
      Leads Definition.uses (definitionTable definitions) earlier later := by
  have defined (earlier later : Text)
      (leads : Leads Definition.uses
        (definitionTable definitions) earlier later) :
      earlier ∈ (definitionTable definitions).names := by
    obtain ⟨definition, found, _⟩ := leads
    exact List.mem_map_of_mem (Table.mem_of_find?_eq_some found)
  let Defined := { name // name ∈ (definitionTable definitions).names }
  let follows (later earlier : Defined) : Prop :=
    TransGen (Leads Definition.uses (definitionTable definitions)) earlier.val
      later.val
  have finite : Finite Defined :=
    (definitionTable definitions).names.finite_toSet.to_subtype
  have transitive : IsTrans Defined follows :=
    ⟨fun _ _ _ inner outer => outer.trans inner⟩
  have irreflexive : Std.Irrefl follows := ⟨fun name => acyclic name.val⟩
  have ends := Finite.wellFounded_of_trans_of_irrefl follows
  refine ⟨fun name => Acc.intro name fun later leads => ?_⟩
  have accessible (first : Defined) :
      Acc (fun later earlier =>
        Leads Definition.uses (definitionTable definitions) earlier later)
          first.val := by
    induction first using ends.induction with
    | _ first inductionHypothesis =>
        refine Acc.intro _ fun next step => ?_
        by_cases known : next ∈ (definitionTable definitions).names
        · exact inductionHypothesis ⟨next, known⟩ (.single step)
        · exact Acc.intro _ fun last further =>
            absurd (defined next last further) known
  exact (accessible ⟨name, defined name later leads⟩).inv leads

/-- What holds of the symbols without definitions, and of a defined one if it
holds of the symbols that its definition makes use of, holds of all symbols. -/
theorem Unfolding.Acyclic.induction {definitions : List Definition}
    (acyclic : Unfolding.Acyclic definitions) {holds : Text → Prop}
    (undefined : ∀ name ∉ definitions.map Definition.name, holds name)
    (defined : ∀ definition ∈ effectiveDefinitions definitions,
      (∀ name ∈ definition.uses, holds name) → holds definition.name)
    (name : Text) :
    holds name := by
  induction name using acyclic.wellFounded.induction with
  | _ name inductionHypothesis =>
      cases found : (definitionTable definitions).find? name with
      | none => exact undefined name (find?_definitionTable_eq_none.mp found)
      | some definition =>
          obtain ⟨_, rfl⟩ := definition_of_find? found
          exact defined definition
            (mem_effectiveDefinitions.mpr found) fun later used =>
            inductionHypothesis later ⟨definition, found, used⟩

variable {Value : Type} {semantics : Semantics Value}
  {definitions : List Definition} {assignment extended other : Assignment Value}

/-- The assignment is extended to the defined symbols such that all equations of
the definitions in effect hold. Apart from arguments of the right sorts, nothing
changes. -/
structure Assignment.Extends (semantics : Semantics Value)
    (definitions : List Definition) (assignment extended : Assignment Value) :
    Prop where
  undefined : ∀ name ∉ definitions.map Definition.name,
      extended name = assignment name
  equation : ∀ definition ∈ effectiveDefinitions definitions, ∀ values,
    semantics.Fits (definition.params.map Prod.snd) values →
    extended definition.name values = definition.body.denote semantics extended
      (Table.enter [] (definition.params.map Prod.fst) values)
  elsewhere : ∀ definition ∈ effectiveDefinitions definitions, ∀ values,
    ¬semantics.Fits (definition.params.map Prod.snd) values →
    extended definition.name values = assignment definition.name values

namespace Assignment

theorem names_enter_params {definition : Definition} {values : List Value}
    (fits : semantics.Fits (definition.params.map Prod.snd) values) :
    (Table.enter [] (definition.params.map Prod.fst) values).names =
      Unfolding.Context.extend [] (definition.params.map Prod.fst) := by
  rw [Table.names_enter (by simpa using fits.length_eq)]
  rfl

/-- The value of a body depends on the symbols that the definition leads to. -/
theorem denote_body_congr {definition : Definition} {values : List Value}
    (fits : semantics.Fits (definition.params.map Prod.snd) values)
    (same : ∀ name ∈ definition.uses, extended name = other name) :
    definition.body.denote semantics extended
        (Table.enter [] (definition.params.map Prod.fst) values) =
      definition.body.denote semantics other
        (Table.enter [] (definition.params.map Prod.fst) values) := by
  apply Term.denote_congr
  rw [names_enter_params fits]
  exact same

/-! ## There is one extension -/

/-- Equations that are not circular determine the assignment. -/
theorem Extends.unique (acyclic : Unfolding.Acyclic definitions)
    (extending : Extends semantics definitions assignment extended)
    (otherExtending : Extends semantics definitions assignment other) :
    extended = other := by
  funext name
  induction name using acyclic.induction with
  | undefined name absent =>
      rw [extending.undefined name absent, otherExtending.undefined name absent]
  | defined definition effective same =>
      funext values
      by_cases fits : semantics.Fits (definition.params.map Prod.snd) values
      · rw [extending.equation definition effective values fits,
          otherExtending.equation definition effective values fits]
        exact denote_body_congr fits same
      · rw [extending.elsewhere definition effective values fits,
          otherExtending.elsewhere definition effective values fits]

open Classical in
/-- The extension, found along the definitions: those of the symbols that a body
makes use of come first. -/
noncomputable def extension (semantics : Semantics Value)
    (assignment : Assignment Value) (acyclic : Unfolding.Acyclic definitions) :
    Assignment Value :=
  acyclic.wellFounded.fix fun name denoted =>
    match (definitionTable definitions).find? name with
    | none => assignment name
    | some definition => fun values =>
      if semantics.Fits (definition.params.map Prod.snd) values then
        definition.body.denote semantics
          (fun later =>
            if leads : Leads Definition.uses
              (definitionTable definitions) name later then
              denoted later leads
            else assignment later)
          (Table.enter [] (definition.params.map Prod.fst) values)
      else assignment name values

theorem extension_of_undefined (acyclic : Unfolding.Acyclic definitions)
    {name : Text} (absent : (definitionTable definitions).find? name = none) :
    extension semantics assignment acyclic name = assignment name := by
  rw [extension, acyclic.wellFounded.fix_eq, absent]

/-- A defined symbol denotes what the body of its definition does. -/
theorem extension_of_defined (acyclic : Unfolding.Acyclic definitions)
    {definition : Definition}
    (effective : definition ∈ effectiveDefinitions definitions)
    {values : List Value}
    (fits : semantics.Fits (definition.params.map Prod.snd) values) :
    extension semantics assignment acyclic definition.name values =
      definition.body.denote semantics (extension semantics assignment acyclic)
        (Table.enter [] (definition.params.map Prod.fst) values) := by
  have found := mem_effectiveDefinitions.mp effective
  conv_lhs => rw [extension, acyclic.wellFounded.fix_eq]
  simp only [found, if_pos fits]
  refine denote_body_congr fits fun later used => ?_
  rw [dif_pos ⟨definition, found, used⟩]
  rfl

theorem extends_extension (acyclic : Unfolding.Acyclic definitions) :
    Extends semantics definitions assignment
      (extension semantics assignment acyclic) where
  undefined name absent :=
    extension_of_undefined acyclic (find?_definitionTable_eq_none.mpr absent)
  equation definition effective values fits :=
    extension_of_defined acyclic effective fits
  elsewhere definition effective values misfits := by
    rw [extension, acyclic.wellFounded.fix_eq]
    simp only [mem_effectiveDefinitions.mp effective, if_neg misfits]

theorem existsUnique_extends (acyclic : Unfolding.Acyclic definitions)
    (assignment : Assignment Value) :
    ∃! extended, Extends semantics definitions assignment extended :=
  ⟨extension semantics assignment acyclic, extends_extension acyclic,
    fun _ extending => extending.unique acyclic (extends_extension acyclic)⟩

/-! ## The extension keeps to the signatures -/

theorem enter_params (params : Binders) (values : List Value)
    (fits : semantics.Fits (params.map Prod.snd) values) :
    Table.enter [] (params.map Prod.fst) values =
      (Scope.enter [] params).assign values.reverse := by
  have entered : (Scope.assign [] []).enter (params.map Prod.fst) values =
      (Scope.enter [] params).assign (values.reverse ++ []) :=
    Scope.enter_assign (by simpa using fits.length_eq)
  rwa [List.append_nil] at entered

/-- If all other symbols keep to their signatures, so do the defined ones. -/
theorem Extends.respects {symbols : SymbolTable}
    (acyclic : Unfolding.Acyclic definitions)
    (extending : Extends semantics definitions assignment extended)
    (settled : ∀ definition ∈ definitions, definition.Settled symbols)
    (respects : ∀ name ∉ definitions.map Definition.name,
      assignment.Respects semantics symbols name) (name : Text) :
    extended.Respects semantics symbols name := by
  induction name using acyclic.induction with
  | undefined name absent =>
      rw [Respects, extending.undefined name absent]
      exact respects name absent
  | defined definition effective usedRespect =>
      have settledDefinition := settled definition
        (definition_of_find? (mem_effectiveDefinitions.mp effective)).1
      intro arguments result values signature fits
      obtain ⟨rfl, rfl⟩ := signature.unique settledDefinition.declared
      rw [settledDefinition.arguments] at fits
      rw [extending.equation definition effective values fits,
        enter_params _ _ fits]
      refine settledDefinition.typed.denote_carried ?_ ?_
      · rw [Scope.names_enter]
        exact usedRespect
      · exact fits.params

end Assignment

end ModelAudit
