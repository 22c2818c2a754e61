import Mathlib.Data.List.Chain
import Mathlib.Data.List.Forall2
import ModelAudit.Proofs.ScopeAgreement
import ModelAudit.Proofs.UnfoldingCycles
import ModelAudit.Proofs.WellSorted

/-!
# What terms and expressions denote

The values of terms and of unfolded expressions over arbitrary sets of values
for the sorts and arbitrary meanings of literals, operators and arrays. What
symbols denote is a parameter: the value of a term depends on the symbols that
it makes use of only, and it is a value of the term's sort if these keep to
their signatures.
-/

namespace ModelAudit

open Unfolding (Context)

/-- The attributes by which SMT-LIB extends an operator on two operands to
more. -/
inductive Attribute
  | leftAssociative
  | rightAssociative
  | chainable
deriving DecidableEq

namespace Operator

/-- The attribute of an operator in its theory. Conjunctions, disjunctions and
concatenations of strings take any number of operands by themselves here. -/
def attribute? : Operator → Option Attribute
  | exclusiveOr | addition | subtraction | multiplication | realDivision
  | integerDivision | bvand | bvor | bvxor | bvadd | bvmul =>
    some .leftAssociative
  | implication => some .rightAssociative
  | equality | less | atMost | greater | atLeast | stringLess | stringAtMost =>
    some .chainable
  | _ => none

/-- The operator under the name that it has since SMT-LIB 2.6. -/
def current : Operator → Operator
  | oldStringToInt => stringToInt
  | oldStringFromInt => stringFromInt
  | operator => operator

end Operator

/-- The values of the sorts, and what literals, operators and arrays mean.
Operators keep to the conventions of SMT-LIB; nothing else is assumed of single
operators. -/
structure Semantics (Value : Type) where
  carrier : SmtSort → Value → Prop
  truth : Prop → Value
  literal : Literal → Value
  /-- The value of an operator between sorts, with its indices. -/
  operation : Operator → List Nat → List SmtSort → SmtSort → List Value → Value
  /-- The array with the values of a function. -/
  array : SmtSort → SmtSort → (Value → Value) → Value
  truths : ∀ value, carrier .bool value ↔ ∃ holds, value = truth holds
  truth_injective : Function.Injective truth
  literal_carried : ∀ value : Literal, value.InRange →
      carrier value.sort (literal value)
  operation_carried : ∀ operator rule indices sorts sort values,
    operator.rule? = some rule →
    rule.resultSort operator sorts (indices.map Int.ofNat) = .ok sort →
    List.Forall₂ carrier sorts values →
    carrier sort (operation operator indices sorts sort values)
  constantArray_carried : ∀ index element value, carrier element value →
    carrier (.array index element)
      (operation .constantArray [] [element] (.array index element) [value])
  /-- Conjunctions are true if all operands are. -/
  conjunction : ∀ operands : List Prop,
    operation .conjunction [] (operands.map fun _ => .bool) .bool
        (operands.map truth) =
      truth (∀ holds ∈ operands, holds)
  leftAssociative : ∀ operator sort first second others,
    operator.attribute? = some .leftAssociative →
    (∀ value ∈ first :: second :: others, carrier sort value) →
    operation operator [] ((first :: second :: others).map fun _ => sort) sort
        (first :: second :: others) =
      (second :: others).foldl
        (fun left right => operation operator [] [sort, sort] sort
          [left, right]) first
  rightAssociative : ∀ operator sort first second third others,
    operator.attribute? = some .rightAssociative →
    (∀ value ∈ first :: second :: third :: others, carrier sort value) →
    operation operator []
        ((first :: second :: third :: others).map fun _ => sort) sort
        (first :: second :: third :: others) =
      operation operator [] [sort, sort] sort
        [first, operation operator []
          ((second :: third :: others).map fun _ => sort) sort
          (second :: third :: others)]
  /-- All neighbours are related. -/
  chainable : ∀ operator sort values, operator.attribute? = some .chainable →
    2 ≤ values.length → (∀ value ∈ values, carrier sort value) →
    operation operator [] (values.map fun _ => sort) .bool values =
      truth (values.IsChain fun left right =>
        operation operator [] [sort, sort] .bool [left, right] = truth True)
  /-- A sum or a product of a single number. -/
  single : ∀ operator sort value, operator = .addition ∨
    operator = .multiplication →
    sort = .int ∨ sort = .real → carrier sort value →
    operation operator [] [sort] sort [value] = value
  /-- The character at a place is the part of length one from there on. -/
  characterAt : ∀ contents place,
    operation .stringAt [] [.string, .int] .string [contents, place] =
      operation .substring [] [.string, .int, .int] .string
        [contents, place, literal (.integer 1)]
  current : ∀ operator, operation operator = operation operator.current
  array_carried : ∀ index element function,
    (∀ value, carrier index value → carrier element (function value)) →
    carrier (.array index element) (array index element function)
  /-- Arrays with the same values at all indices are the same. -/
  array_congr : ∀ index element function other,
    (∀ value, carrier index value → function value = other value) →
    array index element function = array index element other

/-- What symbols denote: a value for each list of arguments. -/
abbrev Assignment (Value : Type) := Text → List Value → Value

namespace Semantics

variable {Value : Type}

/-- The values belong to the sorts, one by one. -/
def Fits (semantics : Semantics Value) (sorts : List SmtSort)
    (values : List Value) : Prop :=
  List.Forall₂ semantics.carrier sorts values

/-- Whether a body is true for all or for some values of the sorts. -/
def quantify (semantics : Semantics Value) (quantifier : Quantifier)
    (sorts : List SmtSort) (body : List Value → Value) : Value :=
  semantics.truth <|
    match quantifier with
    | .universal =>
      ∀ values, semantics.Fits sorts values → body values = semantics.truth True
    | .existential =>
      ∃ values, semantics.Fits sorts values ∧ body values = semantics.truth True

variable {semantics : Semantics Value} {sorts : List SmtSort}

/-- A truth value is the truth of its being true. -/
theorem eq_truth {value : Value} (carried : semantics.carrier .bool value) :
    value = semantics.truth (value = semantics.truth True) := by
  obtain ⟨holds, rfl⟩ := (semantics.truths value).mp carried
  refine congrArg semantics.truth (propext ?_)
  rw [semantics.truth_injective.eq_iff, eq_iff_iff, iff_true]

/-- The conjunction of formulas denotes whether all of them hold. -/
theorem conjunction_map {Element : Type} {elements : List Element}
    {value : Element → Value}
    (truths : ∀ element ∈ elements, semantics.carrier .bool (value element)) :
    semantics.operation .conjunction [] (elements.map fun _ => .bool) .bool
        (elements.map value) =
      semantics.truth
        (∀ element ∈ elements, value element = semantics.truth True) := by
  have law := semantics.conjunction
    (elements.map fun element => value element = semantics.truth True)
  have same := List.map_congr_left fun element member =>
    semantics.eq_truth (truths element member)
  rw [List.map_map, List.map_map, List.forall_mem_map] at law
  rw [same]
  exact law

theorem quantify_congr (quantifier : Quantifier)
    {body other : List Value → Value}
    (same : ∀ values, semantics.Fits sorts values →
      body values = other values) :
    semantics.quantify quantifier sorts body =
      semantics.quantify quantifier sorts other := by
  refine congrArg semantics.truth (propext ?_)
  cases quantifier with
  | universal => exact forall₂_congr fun values fits => by rw [same values fits]
  | existential =>
      exact exists_congr fun values => and_congr_right fun fits => by
        rw [same values fits]

/-- A quantified formula denotes one of the two truth values. -/
theorem quantify_carried (quantifier : Quantifier) (body : List Value → Value) :
    semantics.carrier .bool (semantics.quantify quantifier sorts body) :=
  (semantics.truths _).mpr ⟨_, rfl⟩

end Semantics

/-! ## Terms -/

namespace Term

variable {Value : Type}

mutual

/-- The value of a term, given what symbols denote and the values of the binders
around, the last one first. A function taken as an array is the one that the
symbol denotes. -/
def denote (semantics : Semantics Value) (assignment : Assignment Value)
    (environment : Table Value) : Term → Value
  | .literal value => semantics.literal value
  | .symbol name _ => (environment.find? name).getD (assignment name [])
  | .functionArray function index element =>
    semantics.array index element fun value => assignment function [value]
  | .application head indices arguments sort =>
    let values := denoteAll semantics assignment environment arguments
    match head with
    | .function name => assignment name values
    | .operator operator =>
      semantics.operation operator indices (arguments.map Term.sort) sort values
  | .letIn bindings body =>
    denote semantics assignment
      (environment.enter (bindings.map Prod.fst)
        (denoteBindings semantics assignment environment bindings)) body
  | .quantified quantifier binders body =>
    semantics.quantify quantifier (binders.map Prod.snd) fun values =>
      denote semantics assignment
        (environment.enter (binders.map Prod.fst) values) body
  | .annotated inner _ => denote semantics assignment environment inner

def denoteAll (semantics : Semantics Value) (assignment : Assignment Value)
    (environment : Table Value) : List Term → List Value
  | [] => []
  | first :: others =>
    denote semantics assignment environment first ::
      denoteAll semantics assignment environment others

def denoteBindings (semantics : Semantics Value) (assignment : Assignment Value)
    (environment : Table Value) : List (Text × Term) → List Value
  | [] => []
  | (_, bound) :: others =>
    denote semantics assignment environment bound ::
      denoteBindings semantics assignment environment others

end

variable {semantics : Semantics Value} {assignment other : Assignment Value}
  {environment : Table Value}

theorem denoteAll_eq (terms : List Term) :
    denoteAll semantics assignment environment terms =
      terms.map (denote semantics assignment environment) := by
  induction terms with
  | nil => rfl
  | cons first others inductionHypothesis =>
    rw [denoteAll, inductionHypothesis, List.map_cons]

theorem denoteBindings_eq (bindings : List (Text × Term)) :
    denoteBindings semantics assignment environment bindings =
      (bindings.map Prod.snd).map
        (denote semantics assignment environment) := by
  induction bindings with
  | nil => rfl
  | cons first others inductionHypothesis =>
      rw [denoteBindings, inductionHypothesis, List.map_cons, List.map_cons]

/-! ## The symbols that matter -/

/-- What symbols denote matters for those that the term makes use of. -/
theorem denote_congr (source : Term) :
    ∀ environment : Table Value, (∀ name ∈ source.uses environment.names,
      assignment name = other name) →
      source.denote semantics assignment environment =
        source.denote semantics other environment := by
  induction source using Term.induction with
  | literal value => exact fun _ _ => rfl
  | symbol name sort =>
      intro environment same
      rw [denote, denote]
      cases found : environment.find? name with
      | some value => rfl
      | none =>
          have unbound := Table.find?_eq_none_iff.mp found
          rw [uses, if_neg (by simpa using unbound)] at same
          rw [same name (List.mem_singleton_self name)]
  | functionArray function index element =>
      intro environment same
      rw [denote, denote, same function (List.mem_singleton_self function)]
  | application head indices arguments sort argumentsHypothesis =>
      intro environment same
      rw [uses, List.forall_mem_append] at same
      have values : denoteAll semantics assignment environment arguments =
          denoteAll semantics other environment arguments := by
        rw [denoteAll_eq, denoteAll_eq]
        refine List.map_congr_left fun argument member => ?_
        exact argumentsHypothesis argument member environment fun name used =>
          same.1 name (mem_usesOfAll.mpr ⟨argument, member, used⟩)
      simp only [denote, values]
      cases head with
      | operator operator => rfl
      | function name =>
        exact congrFun (same.2 name (List.mem_singleton_self name)) _
  | letIn bindings body bindingsHypothesis bodyHypothesis =>
      intro environment same
      rw [uses, List.forall_mem_append] at same
      have values : denoteBindings semantics assignment environment bindings =
          denoteBindings semantics other environment bindings := by
        rw [denoteBindings_eq, denoteBindings_eq, List.map_map, List.map_map]
        refine List.map_congr_left fun binding member => ?_
        exact bindingsHypothesis binding member environment fun name used =>
          same.1 name (mem_usesOfBindings.mpr ⟨binding, member, used⟩)
      simp only [denote, values]
      apply bodyHypothesis
      rw [Table.names_enter (by simp [denoteBindings_eq])]
      exact same.2
  | quantified quantifier binders body bodyHypothesis =>
      intro environment same
      simp only [denote]
      refine semantics.quantify_congr quantifier fun values fits =>
        bodyHypothesis _ ?_
      rw [Table.names_enter (by simpa using fits.length_eq)]
      exact same
  | annotated inner attributes innerHypothesis =>
      intro environment same
      exact innerHypothesis environment same

end Term

/-! ## Values of the sorts -/

section Sorts

variable {Value : Type} {semantics : Semantics Value} {symbols : SymbolTable}
  {scope : Scope} {values : List Value}

/-- What the symbol denotes keeps to its signature. -/
def Assignment.Respects (assignment : Assignment Value)
    (semantics : Semantics Value) (symbols : SymbolTable)
    (name : Text) : Prop :=
  ∀ arguments result values, symbols.HasSignature name arguments result →
    semantics.Fits arguments values →
    semantics.carrier result (assignment name values)

/-- The environment with these values for the binders of a scope. -/
def Scope.assign (scope : Scope) (values : List Value) : Table Value :=
  (Table.names scope).zip values

theorem Scope.names_assign (fits : semantics.Fits (Table.values scope) values) :
    Table.names (scope.assign values) = Table.names scope := by
  have lengths := fits.length_eq
  rw [Table.values, List.length_map] at lengths
  exact List.map_fst_zip (by rw [Table.names, List.length_map, lengths])

theorem Scope.names_enter (scope : Scope) (binders : Binders) :
    Table.names (scope.enter binders) =
      Context.extend (Table.names scope) (binders.map Prod.fst) := by
  rw [enter, Table.names, List.map_append, List.map_reverse, Table.names,
    Context.extend]

theorem Scope.enter_assign {binders : Binders} {inner : List Value}
    (lengths : binders.length = inner.length) :
    (scope.assign values).enter (binders.map Prod.fst) inner =
      (scope.enter binders).assign (inner.reverse ++ values) := by
  have reversed : ((binders.map Prod.fst).zip inner).reverse =
      (binders.map Prod.fst).reverse.zip inner.reverse :=
    List.reverse_zipWith (by rw [List.length_map, lengths])
  rw [assign, assign, names_enter, Context.extend, Table.enter,
    List.zip_append (by simpa using lengths), reversed]

theorem Semantics.Fits.enter (fits : semantics.Fits (Table.values scope) values)
    {binders : Binders} {inner : List Value}
    (innerFits : semantics.Fits (binders.map Prod.snd) inner) :
    semantics.Fits (Table.values (scope.enter binders))
      (inner.reverse ++ values) := by
  rw [Scope.enter, Table.values, List.map_append, List.map_reverse]
  exact List.rel_append (List.forall₂_reverse_iff.mpr innerFits) fits

/-- Names with values that fit the sorts given to the names. -/
theorem Semantics.Fits.enter_zip
    (fits : semantics.Fits (Table.values scope) values) {names : List Text}
    {sorts : List SmtSort} {inner : List Value}
    (lengths : names.length = sorts.length)
    (innerFits : semantics.Fits sorts inner) :
    semantics.Fits (Table.values (scope.enter (names.zip sorts)))
        (inner.reverse ++ values) ∧
      (scope.assign values).enter names inner =
        (scope.enter (names.zip sorts)).assign (inner.reverse ++ values) := by
  have zippedNames : (names.zip sorts).map Prod.fst = names :=
    List.map_fst_zip lengths.le
  have zippedSorts : (names.zip sorts).map Prod.snd = sorts :=
    List.map_snd_zip lengths.ge
  have count : (names.zip sorts).length = inner.length := by
    rw [List.length_zip, lengths, Nat.min_self, innerFits.length_eq]
  refine ⟨fits.enter (zippedSorts.symm ▸ innerFits), ?_⟩
  rw [← Scope.enter_assign count, zippedNames]

theorem Semantics.Fits.params {params : Binders}
    (fits : semantics.Fits (params.map Prod.snd) values) :
    semantics.Fits (Table.values (Scope.enter [] params)) values.reverse := by
  have none : semantics.Fits (Table.values ([] : Scope)) [] := .nil
  simpa using none.enter fits

/-- Under values that fit the binders every name in scope has a value of its
sort. -/
theorem Semantics.Fits.exists_value
    (fits : semantics.Fits (Table.values scope) values) {name : Text}
    {sort : SmtSort} (found : scope.find? name = some sort) :
    ∃ value, (scope.assign values).find? name = some value ∧
      semantics.carrier sort value := by
  induction scope generalizing values with
  | nil => cases found
  | cons entry scope inductionHypothesis =>
      obtain ⟨key, first⟩ := entry
      obtain ⟨value, rest, carried, others, rfl⟩ :=
        List.forall₂_cons_left_iff.mp fits
      rw [Table.find?] at found
      split at found
      · next same =>
        obtain rfl := Option.some.inj found
        exact ⟨value, if_pos same, carried⟩
      · next different =>
        obtain ⟨value, valueFound, carried⟩ := inductionHypothesis others found
        exact ⟨value, (if_neg different).trans valueFound, carried⟩

theorem Semantics.Fits.find?_eq_none
    (fits : semantics.Fits (Table.values scope) values) {name : Text}
    (unbound : scope.find? name = none) :
    (scope.assign values).find? name = none := by
  rw [Table.find?_eq_none_iff, Scope.names_assign fits]
  exact Table.find?_eq_none_iff.mp unbound

/-- Values of terms fit the sorts that the terms have one by one. -/
theorem Semantics.fits_map {terms : List Term} {sorts : List SmtSort}
    {value : Term → Value} (lengths : terms.length = sorts.length)
    (each : ∀ typed ∈ terms.zip sorts,
      semantics.carrier typed.snd (value typed.fst)) :
    semantics.Fits sorts (terms.map value) := by
  refine List.forall₂_map_right_iff.mpr
    (.flip (List.forall₂_iff_zip.mpr ⟨lengths, ?_⟩))
  exact fun member => each _ member

/-- The value of a term is one of its sort, if the symbols that it makes use of
keep to their signatures. -/
theorem Term.HasSort.denote_carried {assignment : Assignment Value}
    {source : Term} {sort : SmtSort}
    (typed : source.HasSort symbols Literal.InRange scope sort)
    (respects : ∀ name ∈ source.uses (Table.names scope),
      assignment.Respects semantics symbols name)
    (fits : semantics.Fits (Table.values scope) values) :
    semantics.carrier sort
      (source.denote semantics assignment (scope.assign values)) := by
  induction typed generalizing values with
  | literal inRange => exact semantics.literal_carried _ inRange
  | @bound scope name sort found =>
      obtain ⟨value, valueFound, carried⟩ := fits.exists_value found
      rwa [Term.denote, valueFound]
  | @constant scope name sort unbound signature =>
      rw [Term.denote, fits.find?_eq_none unbound]
      refine respects name ?_ [] sort [] signature .nil
      rw [Term.uses, if_neg]
      · exact List.mem_singleton_self name
      · simpa using Table.find?_eq_none_iff.mp unbound
  | @functionArray scope function index element signature =>
      refine semantics.array_carried _ _ _ fun value carried => ?_
      exact respects function (List.mem_singleton_self function) [index] element
        [value] signature (.cons carried .nil)
  | @call scope name indices arguments sorts result unbound signature lengths _
      argumentsHypothesis =>
      rw [Term.uses, List.forall_mem_append] at respects
      rw [Term.denote, Term.denoteAll_eq]
      refine respects.2 name (List.mem_singleton_self name) sorts result _
        signature (Semantics.fits_map lengths fun typed member => ?_)
      exact argumentsHypothesis typed member (fun name used => respects.1 name
        (Term.mem_usesOfAll.mpr ⟨typed.fst, (List.of_mem_zip member).1, used⟩))
          fits
  | @operation scope operator rule indices arguments sorts result known computed
      lengths typed argumentsHypothesis =>
      rw [Term.uses, List.forall_mem_append] at respects
      obtain rfl := Term.HasSort.sorts_eq lengths typed
      rw [Term.denote, Term.denoteAll_eq]
      refine semantics.operation_carried operator rule indices _ result _ known
        computed (Semantics.fits_map lengths fun typed member => ?_)
      exact argumentsHypothesis typed member (fun name used => respects.1 name
        (Term.mem_usesOfAll.mpr ⟨typed.fst, (List.of_mem_zip member).1, used⟩))
          fits
  | @constantArray scope value index element ground typed valueHypothesis =>
      rw [Term.uses, Term.usesOfAll, Term.usesOfAll, List.append_nil,
        List.forall_mem_append] at respects
      obtain rfl := typed.sort_eq
      exact semantics.constantArray_carried _ _ _
        (valueHypothesis respects.1 fits)
  | @letIn scope bindings sorts body sort nonempty lengths _ _ boundHypothesis
      bodyHypothesis =>
      rw [Term.uses, List.forall_mem_append] at respects
      have bound : semantics.Fits sorts
          ((bindings.map Prod.snd).map
            (Term.denote semantics assignment (scope.assign values))) := by
        refine Semantics.fits_map lengths fun typed member => ?_
        obtain ⟨binding, inside, same⟩ :=
          List.mem_map.mp (List.of_mem_zip member).1
        exact boundHypothesis typed member (fun name used => respects.1 name
          (Term.mem_usesOfBindings.mpr ⟨binding, inside, same ▸ used⟩)) fits
      have count : (bindings.map Prod.fst).length = sorts.length := by
        simpa using lengths
      obtain ⟨innerFits, entered⟩ := fits.enter_zip count bound
      rw [Term.denote, Term.denoteBindings_eq, entered]
      refine bodyHypothesis ?_ innerFits
      rw [Scope.names_enter, List.map_fst_zip count.le]
      exact respects.2
  | quantified _ _ _ _ => exact semantics.quantify_carried _ _
  | annotated _ innerHypothesis => exact innerHypothesis respects fits

end Sorts

/-! ## Expressions -/

namespace Expression

variable {Value : Type}

mutual

/-- The value of an expression, given what symbols without definition denote and
the values of the variables around, the innermost first. -/
def denote (semantics : Semantics Value) (assignment : Assignment Value)
    (values : List Value) : Expression → Value
  | value given => semantics.literal given.literal
  | bound index _ => (values[index]?).getD (semantics.truth True)
  | constant name _ => assignment name []
  | application function arguments _ =>
    assignment function (denoteAll semantics assignment values arguments)
  | operation function indices arguments sort =>
    let sorts := arguments.map Expression.sort
    semantics.operation (function.operator sorts) indices sorts sort
      (denoteAll semantics assignment values arguments)
  | letIn bounds body =>
    denote semantics assignment
      ((denoteAll semantics assignment values bounds).reverse ++ values) body
  | quantified quantifier sorts body =>
    semantics.quantify quantifier sorts fun inner =>
      denote semantics assignment (inner.reverse ++ values) body
  | arrayOf index element body =>
    semantics.array index element fun value =>
      denote semantics assignment (value :: values) body

def denoteAll (semantics : Semantics Value) (assignment : Assignment Value)
    (values : List Value) : List Expression → List Value
  | [] => []
  | first :: others =>
    denote semantics assignment values first ::
      denoteAll semantics assignment values others

end

theorem denoteAll_eq {semantics : Semantics Value}
    {assignment : Assignment Value} {values : List Value}
    (expressions : List Expression) :
    denoteAll semantics assignment values expressions =
      expressions.map (denote semantics assignment values) := by
  induction expressions with
  | nil => rfl
  | cons first others inductionHypothesis =>
    rw [denoteAll, inductionHypothesis, List.map_cons]

end Expression

end ModelAudit
