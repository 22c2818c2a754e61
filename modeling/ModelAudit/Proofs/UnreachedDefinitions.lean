import ModelAudit.Proofs.Dependency
import ModelAudit.Proofs.ScopedTranslation
import ModelAudit.Proofs.SettledPair
import ModelAudit.Proofs.SpareIdentifiers

/-!
# Definitions that the assertions do not reach

Free names of settled terms are declared, so no path leads from the assertions
to a definition of a new name. Such a definition is left out of the obligation,
and so is its symbol. If no binder is named after it, the obligation is the same
as without it.
-/

namespace ModelAudit

open Relation

namespace Table

variable {Value : Type}

theorem erase_cons (key : Text) (value : Value) (rest : Table Value)
    (name : Text) :
    erase ((key, value) :: rest) name =
      if key = name then rest.erase name
        else (key, value) :: rest.erase name := by
  by_cases same : key = name
  · simp [erase, same]
  · simp [erase, same]

theorem erase_eq_self {table : Table Value} {name : Text}
    (absent : table.find? name = none) :
    table.erase name = table := by
  rw [find?_eq_none_iff] at absent
  refine List.filter_eq_self.mpr fun entry member => decide_eq_true ?_
  rintro rfl
  exact absent (List.mem_map_of_mem member)

theorem names_erase (table : Table Value) (name : Text) :
    (table.erase name).names = table.names.filter fun key => key ≠ name := by
  rw [names, names, List.filter_map]
  rfl

theorem insert_of_find?_eq_none {table : Table Value} {name : Text}
    (value : Value) (absent : table.find? name = none) :
    table.insert name value = table ++ [(name, value)] := by
  induction table with
  | nil => rfl
  | cons entry rest inductionHypothesis =>
      obtain ⟨key, old⟩ := entry
      by_cases sameKey : key = name
      · simp [find?, sameKey] at absent
      · rw [insert, if_neg sameKey, List.cons_append,
          inductionHypothesis (by simpa [find?, sameKey] using absent)]

/-- Erasing a name undoes inserting it, and can be exchanged with inserting
another. -/
theorem erase_insert (table : Table Value) (name other : Text) (value : Value) :
    (table.insert other value).erase name =
      if other = name then table.erase name
        else (table.erase name).insert other value := by
  induction table with
  | nil => rw [insert, erase_cons]; rfl
  | cons entry rest inductionHypothesis =>
      obtain ⟨key, old⟩ := entry
      by_cases sameKey : key = other
      · subst sameKey
        rw [insert, if_pos rfl, erase_cons, erase_cons]
        by_cases same : key = name
        · rw [if_pos same, if_pos same, if_pos same]
        · rw [if_neg same, if_neg same, if_neg same, insert, if_pos rfl]
      · rw [insert, if_neg sameKey, erase_cons, inductionHypothesis, erase_cons]
        by_cases keyName : key = name
        · rw [if_pos keyName, if_pos keyName]
        · rw [if_neg keyName, if_neg keyName, insert, if_neg sameKey]
          split
          · rfl
          · rfl

/-- What the test rejects may be erased or not. -/
theorem filter_values_erase {table : Table Value} {name : Text}
    {test : Value → Bool}
    (rejected : ∀ entry ∈ table, entry.fst = name → test entry.snd = false) :
    (table.erase name).values.filter test = table.values.filter test := by
  induction table with
  | nil => rfl
  | cons entry rest inductionHypothesis =>
      obtain ⟨key, value⟩ := entry
      rw [List.forall_mem_cons] at rejected
      have rest := inductionHypothesis rejected.2
      rw [values] at rest
      rw [erase_cons]
      by_cases sameKey : key = name
      · have dropped := rejected.1 sameKey
        simpa [values, sameKey, dropped] using rest
      · simp [values, sameKey, List.filter_cons, rest]

end Table

/-! ## Free names -/

/-- The name is declared, or it is the name of an operator or of a truth
value. -/
def SymbolTable.Knows (symbols : SymbolTable) (name : Text) : Prop :=
  symbols.lookup? name ≠ none ∨ isBuiltinName name = true

theorem SymbolTable.HasSignature.knows {symbols : SymbolTable} {name : Text}
    {arguments : List SmtSort} {result : SmtSort}
    (signature : symbols.HasSignature name arguments result) :
    symbols.Knows name :=
  .inl signature.lookup?_ne_none

theorem mem_names_enter {scope : Scope} {binders : Binders} {name : Text}
    (member : name ∈ Table.names (scope.enter binders)) :
    name ∈ binders.map Prod.fst ∨ name ∈ Table.names scope := by
  rw [Scope.enter, Table.names, List.map_append, List.map_reverse,
    List.mem_append, List.mem_reverse] at member
  exact member

/-- A free name of a term is bound around it or known. -/
theorem Term.WellSorted.knows {symbols : SymbolTable} {name : Text}
    (source : Term) :
    ∀ scope : Scope, source.WellSorted symbols scope → name ∈ source.freeNames →
      name ∈ Table.names scope ∨ symbols.Knows name := by
  induction source using Term.induction with
  | literal value => exact fun _ _ free => absurd free List.not_mem_nil
  | symbol other sort =>
      intro scope wellSorted free
      obtain rfl := List.mem_singleton.mp free
      rcases wellSorted with bound | ⟨_, signature⟩
      · exact .inl (List.mem_map_of_mem (Table.mem_of_find?_eq_some bound))
      · exact .inr signature.knows
  | functionArray function index element =>
      intro scope wellSorted free
      rcases List.mem_cons.mp free with rfl | free
      · exact .inr (SymbolTable.HasSignature.knows wellSorted)
      · obtain rfl := List.mem_singleton.mp free
        exact .inr (.inr (Operator.isBuiltinName_name _))
  | application head indices arguments sort argumentsHypothesis =>
      intro scope wellSorted free
      obtain ⟨fits, wellSortedArguments⟩ := wellSorted
      rcases List.mem_append.mp free with inside | atHead
      · obtain ⟨argument, member, inside⟩ := mem_freeNamesOfAll.mp inside
        exact argumentsHypothesis argument member scope
          (wellSortedAll_iff.mp wellSortedArguments argument member) inside
      · obtain rfl := List.mem_singleton.mp atHead
        cases head with
        | operator operator =>
          exact .inr (.inr (Operator.isBuiltinName_name operator))
        | function function => exact .inr fits.2.knows
  | letIn bindings body bindingsHypothesis bodyHypothesis =>
      intro scope wellSorted free
      obtain ⟨wellSortedBindings, wellSortedBody, _⟩ := wellSorted
      rcases List.mem_append.mp free with inside | inside
      · obtain ⟨binding, member, inside⟩ := mem_freeNamesOfBindings.mp inside
        exact bindingsHypothesis binding member scope
          (wellSortedBindings_iff.mp wellSortedBindings binding member) inside
      · obtain ⟨inside, unbound⟩ := List.mem_filter.mp inside
        refine (bodyHypothesis _ wellSortedBody inside).imp_left fun entered =>
          ?_
        refine (mem_names_enter entered).resolve_left fun bound => ?_
        rw [map_fst_letBinders] at bound
        simp [bound] at unbound
  | quantified quantifier binders body bodyHypothesis =>
      intro scope wellSorted free
      obtain ⟨inside, unbound⟩ := List.mem_filter.mp free
      refine (bodyHypothesis _ wellSorted.2.2.1 inside).imp_left fun entered =>
        ?_
      refine (mem_names_enter entered).resolve_left fun bound => ?_
      simp [bound] at unbound
  | annotated inner attributes innerHypothesis => exact innerHypothesis

theorem Definition.Settled.knows {symbols : SymbolTable}
    {definition : Definition} (settled : definition.Settled symbols) :
    ∀ name ∈ definition.freeNames, symbols.Knows name := by
  intro name free
  obtain ⟨inside, unbound⟩ := List.mem_filter.mp free
  refine (settled.body.knows _ _ inside).resolve_left fun entered => ?_
  refine (mem_names_enter entered).elim (fun bound => ?_) List.not_mem_nil
  simp [bound] at unbound

/-! ## Visits -/

namespace Reachability

variable {remaining other : Table Definition} {reached pending : List Text}

/-- Visits are the same if the tables agree on all that holds of visited
names. -/
theorem visit_congr (holds : Text → Prop)
    (same : ∀ name, holds name → remaining.find? name = other.find? name)
    (pendingHold : ∀ name ∈ pending, holds name)
    (step : ∀ name definition, holds name →
      remaining.find? name = some definition →
      ∀ later ∈ definition.freeNames, holds later) :
    visit remaining reached pending = visit other reached pending := by
  induction remaining, reached, pending
    using visit.induct generalizing other with
  | case1 remaining reached => rw [visit, visit]
  | case2 remaining reached name pending seen inductionHypothesis =>
      rw [visit_of_seen seen, visit_of_seen seen]
      exact inductionHypothesis same
        (List.forall_mem_cons.mp pendingHold).2 step
  | case3 remaining reached name pending unseen absent inductionHypothesis =>
      obtain ⟨head, tail⟩ := List.forall_mem_cons.mp pendingHold
      rw [visit_of_absent unseen absent,
        visit_of_absent unseen (same name head ▸ absent)]
      exact inductionHypothesis same tail step
  | case4 remaining reached name pending unseen definition found
      inductionHypothesis =>
      obtain ⟨head, tail⟩ := List.forall_mem_cons.mp pendingHold
      rw [visit_of_found unseen found,
        visit_of_found unseen (same name head ▸ found)]
      apply inductionHypothesis
      · intro earlier holdsEarlier
        rw [Table.find?_erase, Table.find?_erase, same earlier holdsEarlier]
      · exact List.forall_mem_append.mpr ⟨step name definition head found, tail⟩
      · intro earlier another holdsEarlier otherFound
        rw [Table.find?_erase] at otherFound
        split at otherFound
        · cases otherFound
        · exact step earlier another holdsEarlier otherFound

end Reachability

/-! ## Pairs with one definition more -/

/-- The table without the symbol of a name. -/
def SymbolTable.without (symbols : SymbolTable) (name : Text) : SymbolTable :=
  { symbols with declarations := symbols.declarations.erase name }

/-- The extended pair has one more definition in its model, with a symbol of its
own. -/
structure Session.Pair.Adds (pair : Session.Pair) (added : Definition)
    (extended : Session.Pair) :
    Prop where
  formula : extended.formula = pair.formula
  definitions : extended.model.definitions = pair.model.definitions ++ [added]
  declarations : extended.model.declarations = pair.model.declarations
  symbols : extended.symbols.without added.name = pair.symbols

namespace Obligation

open Translation HolScope

variable {pair extended : Session.Pair} {added : Definition}
  {operators : OperatorTable}

/-- The added symbol is new. -/
theorem not_knows_of_adds (adds : pair.Adds added extended)
    (settled : extended.Settled) :
    ¬pair.symbols.Knows added.name := by
  rintro (declared | builtin)
  · refine declared ?_
    rw [← adds.symbols]
    exact (Table.find?_erase _ _ _).trans (if_pos rfl)
  · have member : added ∈ extended.model.definitions := by
      rw [adds.definitions]
      exact List.mem_append_right _ (List.mem_singleton_self _)
    obtain ⟨declaration, found, _⟩ :=
      (settled.model.definitions added member).declared
    have listed : added.name ∈ extended.symbols.declarations.names :=
      List.mem_map_of_mem (Table.mem_of_find?_eq_some found)
    rw [settled.wellFormed.unreserved _ listed] at builtin
    cases builtin

/-- The added name is not among the pair's definitions. -/
theorem find?_table_of_adds (adds : pair.Adds added extended)
    (settled : pair.Settled) (extendedSettled : extended.Settled) :
    (table pair.formula pair.model).find? added.name = none := by
  refine find?_definitionTable_eq_none.mpr fun listed => ?_
  obtain ⟨definition, member, same⟩ := List.mem_map.mp listed
  have declared := (settled.definition definition member).declared
  exact not_knows_of_adds adds extendedSettled (same ▸ declared.knows)

theorem definitionsInEffect_of_adds (adds : pair.Adds added extended)
    (settled : pair.Settled) (extendedSettled : extended.Settled) :
    definitionsInEffect extended.formula extended.model =
      definitionsInEffect pair.formula pair.model ++ [added] := by
  have absent := find?_table_of_adds adds settled extendedSettled
  rw [definitionsInEffect, adds.formula, adds.definitions, ← List.append_assoc]
  change (definitionTable _).values = (definitionTable _).values ++ [added]
  rw [definitionTable_append_singleton,
    Table.insert_of_find?_eq_none added absent, Table.values, List.map_append]
  rfl

/-! What is reached in a settled pair is known. -/

theorem knows_of_mem_assertions (settled : pair.Settled) :
    ∀ name ∈ pair.formula.assertions.flatMap Term.freeNames,
      pair.symbols.Knows name := by
  intro name member
  obtain ⟨assertion, inside, free⟩ := List.mem_flatMap.mp member
  exact ((settled.formula.assertions assertion inside).knows _ _
    free).resolve_left List.not_mem_nil

theorem knows_of_find? (settled : pair.Settled) {name : Text}
    {definition : Definition}
    (found : (definitionTable
        (definitionsInEffect pair.formula pair.model)).find? name =
      some definition) :
    ∀ later ∈ definition.freeNames, pair.symbols.Knows later := by
  rw [definitionsInEffect, find?_definitionTable_effectiveDefinitions] at found
  exact (settled.definition definition (definition_of_find? found).1).knows

theorem knows_of_mem_reached (settled : pair.Settled) :
    ∀ name ∈ reached pair.formula pair.model, pair.symbols.Knows name :=
  Reachability.visit_induction pair.symbols.Knows
    (fun _ member => absurd member List.not_mem_nil)
    (knows_of_mem_assertions settled) fun _ _ _ found =>
      knows_of_find? settled found

/-- A definition that nothing mentions does not change what is reached. -/
theorem reached_of_adds (adds : pair.Adds added extended)
    (settled : pair.Settled) (extendedSettled : extended.Settled) :
    reached extended.formula extended.model =
      reached pair.formula pair.model := by
  have unknown := not_knows_of_adds adds extendedSettled
  rw [reached, reached, Reachability.reachedNames, Reachability.reachedNames,
    definitionsInEffect_of_adds adds settled extendedSettled, adds.formula]
  refine (Reachability.visit_congr pair.symbols.Knows (fun name known => ?_)
    (knows_of_mem_assertions settled) fun _ _ _ found =>
      knows_of_find? settled found).symm
  have apart : name ∉ [added].map Definition.name := by
    rw [List.map_singleton, List.mem_singleton]
    rintro rfl
    exact unknown known
  change (definitionTable _).find? name = (definitionTable _).find? name
  rw [find?_definitionTable_append, find?_definitionTable_eq_none.mpr apart,
    Option.none_or]

theorem not_mem_reached_of_adds (adds : pair.Adds added extended)
    (settled : pair.Settled) (extendedSettled : extended.Settled) :
    added.name ∉ reached pair.formula pair.model :=
  fun member =>
    not_knows_of_adds adds extendedSettled
      (knows_of_mem_reached settled _ member)

/-- A definition that nothing mentions does not change which definitions are
kept. -/
theorem kept_of_adds (adds : pair.Adds added extended) (settled : pair.Settled)
    (extendedSettled : extended.Settled) :
    kept extended.formula extended.model = kept pair.formula pair.model := by
  have unreached := not_mem_reached_of_adds adds settled extendedSettled
  have dropped :
      Reachability.keptDefinitions (reached pair.formula pair.model) [added] =
        [] := by
    simp [Reachability.keptDefinitions, unreached]
  rw [kept, kept, reached_of_adds adds settled extendedSettled,
    definitionsInEffect_of_adds adds settled extendedSettled,
    Reachability.keptDefinitions, List.filter_append,
    ← Reachability.keptDefinitions, ← Reachability.keptDefinitions, dropped,
    List.append_nil]

/-- A definition that nothing mentions does not change which declarations are in
use. -/
theorem usedDeclarations_of_adds (adds : pair.Adds added extended)
    (settled : pair.Settled) (extendedSettled : extended.Settled)
    (definitions : List Definition) :
    usedDeclarations extended.symbols
        (reached pair.formula pair.model) definitions =
      usedDeclarations pair.symbols
        (reached pair.formula pair.model) definitions := by
  have unreached := not_mem_reached_of_adds adds settled extendedSettled
  have nodup := extendedSettled.reached.nodup_names List.nodup_nil
  have values : (pair.symbols.declarations.values.filter fun declaration =>
      (reached pair.formula pair.model).contains declaration.name &&
        !isBuiltinName declaration.name) =
      extended.symbols.declarations.values.filter fun declaration =>
        (reached pair.formula pair.model).contains declaration.name &&
          !isBuiltinName declaration.name := by
    rw [← adds.symbols]
    refine Table.filter_values_erase fun entry member named => ?_
    obtain ⟨key, declaration⟩ := entry
    obtain rfl := extendedSettled.wellFormed.names key declaration
      ((Table.find?_eq_some_iff_of_nodup nodup).mpr member)
    rw [show declaration.name = added.name from named]
    simp [unreached]
  rw [usedDeclarations, usedDeclarations, values]

/-- Outside all binders the identifiers are the same but for the added
symbol's. -/
theorem agreeExcept_of_adds (adds : pair.Adds added extended) :
    AgreeExcept added.name (rootScope extended.symbols)
      (rootScope pair.symbols) where
  names := rfl
  taken identifier apart := by
    rw [← adds.symbols]
    simp only [rootScope, HolScope.ofNames, Table.values, List.map_nil,
      List.filter_nil, List.append_nil, SymbolTable.without, Table.names_erase,
      List.mem_map, List.mem_filter]
    constructor
    · rintro ⟨name, declared, rfl⟩
      refine ⟨name, ⟨declared, decide_eq_true ?_⟩, rfl⟩
      rintro rfl
      exact apart rfl
    · rintro ⟨name, ⟨declared, _⟩, rfl⟩
      exact ⟨name, declared, rfl⟩

/-- The obligation is the same with the added definition. -/
theorem ofPair_of_adds (adds : pair.Adds added extended)
    (settled : pair.Settled) (extendedSettled : extended.Settled)
    (unbound : ∀ assertion ∈ pair.formula.assertions,
      added.name ∉ assertion.boundNames)
    (unboundInKept : ∀ definition ∈ kept pair.formula pair.model,
      added.name ∉ definition.boundNames) :
    ofPair operators extended = ofPair operators pair := by
  have agree := agreeExcept_of_adds adds
  have words :
      vocabulary operators extended.symbols =
        vocabulary operators pair.symbols := by
    rw [← adds.symbols]
    rfl
  have sameGoals :
      goals (vocabulary operators pair.symbols) (rootScope extended.symbols)
      pair.formula = goals (vocabulary operators pair.symbols)
        (rootScope pair.symbols) pair.formula :=
    Outcome.mapM_congr fun assertion member =>
      term_congr _ assertion agree (unbound assertion member)
  have sameEquations :
      equationsOf (vocabulary operators pair.symbols)
        (rootScope extended.symbols)
      (kept pair.formula pair.model) = equationsOf
        (vocabulary operators pair.symbols) (rootScope pair.symbols)
        (kept pair.formula pair.model) :=
    Outcome.mapM_congr fun definition member =>
      equation_congr _ agree (unboundInKept definition member)
  rw [ofPair, ofPair]
  dsimp only
  rw [← kept, ← kept, kept_of_adds adds settled extendedSettled,
    reached_of_adds adds settled extendedSettled, adds.formula,
    adds.declarations, words, sameGoals, sameEquations,
    usedDeclarations_of_adds adds settled extendedSettled]

end Obligation

end ModelAudit
