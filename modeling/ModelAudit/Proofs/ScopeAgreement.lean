import ModelAudit.Proofs.FreshName
import ModelAudit.Proofs.Tables
import ModelAudit.Proofs.TermInduction

/-!
# Scopes and the binders around a term

A name and the identifier that a scope gives it should lead to the same binder:
looked up among the names around a term in the one case, and among the
identifiers around its translation in the other. Here binders carry any kind of
value, so the lemmas serve both for where a binder stands and for what it
denotes.
-/

namespace ModelAudit

namespace Table

variable {Value : Type}

/-- The table inside binders with values; the last binder comes first. -/
def enter (table : Table Value) (names : List Text) (values : List Value) :
    Table Value :=
  (names.zip values).reverse ++ table

@[simp]
theorem enter_nil (table : Table Value) (values : List Value) :
    table.enter [] values = table :=
  rfl

@[simp]
theorem enter_cons (table : Table Value) (name : Text) (names : List Text)
    (value : Value) (values : List Value) :
    table.enter (name :: names) (value :: values) =
      Table.enter ((name, value) :: table) names values := by
  simp [enter]

theorem enter_append {table : Table Value} {names others : List Text}
    {values more : List Value} (lengths : names.length = values.length) :
    table.enter (names ++ others) (values ++ more) =
      (table.enter names values).enter others more := by
  simp [enter, List.zip_append lengths]

@[simp]
theorem names_enter {table : Table Value} {names : List Text}
    {values : List Value} (lengths : names.length = values.length) :
    (table.enter names values).names = names.reverse ++ table.names := by
  have added : (names.zip values).map Prod.fst = names :=
    List.map_fst_zip (Nat.le_of_eq lengths)
  rw [enter, Table.names, List.map_append, List.map_reverse, added, Table.names]

theorem find?_enter_of_not_mem {table : Table Value} {names : List Text}
    {values : List Value} {name : Text} (outside : name ∉ names) :
    (table.enter names values).find? name = table.find? name := by
  have absent : Table.find? (names.zip values).reverse name = none := by
    rw [find?_eq_none_iff]
    intro member
    rw [Table.names, List.mem_map] at member
    obtain ⟨⟨key, value⟩, inside, rfl⟩ := member
    exact outside (List.of_mem_zip (List.mem_reverse.mp inside)).1
  rw [enter, find?_append, absent, Option.none_or]

end Table

namespace HolScope

open Identifier

variable {Value : Type}

/-- A name and its identifier lead to the same value. -/
def Agrees (scope : HolScope) (byName byIdentifier : Table Value)
    (name : Text) : Prop :=
  byIdentifier.find? (scope.identifier name) = byName.find? name

/-- Every identifier of the scope is one that a binder of its name may get. -/
def Faithful (scope : HolScope) : Prop :=
  ∀ name identifier, scope.lookup? name = some identifier →
    StandsFor identifier name

/-- Every identifier was picked by the scope. -/
def Picks (scope : HolScope) (picked : List (Text × Text)) : Prop :=
  ∀ pair ∈ picked, ∃ avoided, pair.snd = scope.fresh pair.fst avoided

theorem Picks.standsFor {scope : HolScope} {picked : List (Text × Text)}
    (picks : scope.Picks picked) :
    ∀ pair ∈ picked, StandsFor pair.snd pair.fst := by
  intro pair member
  obtain ⟨avoided, shape⟩ := picks pair member
  rw [shape]
  exact scope.fresh_standsFor pair.fst avoided

theorem Picks.not_mem_taken {scope : HolScope} {picked : List (Text × Text)}
    (picks : scope.Picks picked) {identifier : Text}
    (taken : identifier ∈ scope.taken) :
    identifier ∉ picked.map Prod.snd := by
  intro member
  obtain ⟨pair, inside, rfl⟩ := List.mem_map.mp member
  obtain ⟨avoided, shape⟩ := picks pair inside
  have free := scope.fresh_not_mem pair.fst avoided
  rw [← shape] at free
  exact free (List.mem_append_left avoided taken)

theorem lookup?_bind (scope : HolScope) (picked : List (Text × Text))
    (name : Text) :
    (scope.bind picked).lookup? name = Table.find?
      (picked.reverse ++ scope.names) name := by
  rw [lookup?, bind, ofNames]
  exact Table.find?_foldl_insert picked scope.names name

theorem taken_subset_bind (scope : HolScope) (picked : List (Text × Text)) :
    scope.taken ⊆ (scope.bind picked).taken := by
  intro identifier member
  exact List.mem_append_left _ member

theorem Faithful.bind {scope : HolScope} (faithful : scope.Faithful)
    {picked : List (Text × Text)} (picks : scope.Picks picked) :
    (scope.bind picked).Faithful := by
  intro name identifier found
  rw [lookup?_bind, Table.find?_append, Option.or_eq_some_iff] at found
  rcases found with inside | ⟨_, outside⟩
  · have member := List.mem_reverse.mp (Table.mem_of_find?_eq_some inside)
    exact picks.standsFor (name, identifier) member
  · exact faithful name identifier outside

theorem Faithful.identifier_standsFor {scope : HolScope}
    (faithful : scope.Faithful) (name : Text) :
    StandsFor (scope.identifier name) name := by
  rw [identifier]
  cases found : scope.lookup? name with
  | none => exact .inl rfl
  | some bound => exact faithful name bound found

/-- The identifier of a name in a list of pairs put before a scope's own. -/
private def identifierIn (names : Table Text) (name : Text) : Text :=
  (names.find? name).getD (escape name)

/-- Binders added on both sides keep names and identifiers in step: an
identifier stands for one name, so it is shadowed exactly when its name is. -/
private theorem agreement_enter {picked : List (Text × Text)}
    {values : List Value} {names : Table Text}
    {byName byIdentifier : Table Value} {name : Text}
    (lengths : picked.length = values.length)
    (picksStand : ∀ pair ∈ picked, StandsFor pair.snd pair.fst)
    (namesStand : ∀ key identifier, names.find? key = some identifier →
      StandsFor identifier key)
    (outside : name ∉ picked.map Prod.fst →
      byIdentifier.find? (identifierIn names name) = byName.find? name) :
    (byIdentifier.enter (picked.map Prod.snd) values).find?
        (identifierIn (picked.reverse ++ names) name) =
      (byName.enter (picked.map Prod.fst) values).find? name := by
  induction picked generalizing values names byName byIdentifier with
  | nil => exact outside (by simp)
  | cons pair rest inductionHypothesis =>
      obtain ⟨key, picked⟩ := pair
      cases values with
      | nil => simp at lengths
      | cons value values =>
          have stands : StandsFor picked key :=
            picksStand (key, picked) (by simp)
          rw [List.reverse_cons, List.append_assoc, List.map_cons,
            List.map_cons, Table.enter_cons, Table.enter_cons]
          apply inductionHypothesis (by simpa using lengths)
          · exact fun pair member =>
              picksStand pair (List.mem_cons_of_mem _ member)
          · intro other identifier found
            by_cases sameKey : key = other
            · have sameIdentifier : picked = identifier := by
                simpa [Table.find?, sameKey] using found
              rwa [← sameKey, ← sameIdentifier]
            · exact namesStand other identifier
                (by simpa [Table.find?, sameKey] using found)
          · intro notLater
            by_cases sameName : key = name
            · simp [identifierIn, Table.find?, sameName]
            · have outer := outside (by simpa [Ne.symm sameName] using notLater)
              have standsOuter : StandsFor (identifierIn names name) name := by
                rw [identifierIn]
                cases found : Table.find? names name with
                | none => exact .inl rfl
                | some bound => exact namesStand name bound found
              have different : picked ≠ identifierIn names name := by
                rintro rfl
                exact sameName (stands.unique standsOuter)
              rw [identifierIn] at different outer
              simpa [identifierIn, Table.find?, sameName, different] using outer

variable {scope : HolScope} {picked : List (Text × Text)} {values : List Value}
  {byName byIdentifier : Table Value}

/-- Inside new binders, every name still agrees that is bound there or agreed
outside. -/
theorem Agrees.bind (faithful : scope.Faithful) (picks : scope.Picks picked)
    (lengths : picked.length = values.length) {name : Text}
    (outside : name ∉ picked.map Prod.fst →
      scope.Agrees byName byIdentifier name) :
    (scope.bind picked).Agrees (byName.enter (picked.map Prod.fst) values)
      (byIdentifier.enter (picked.map Prod.snd) values) name := by
  rw [Agrees, identifier, lookup?_bind]
  exact agreement_enter lengths picks.standsFor faithful outside

/-- The scope gives identifiers to names that have a value, and to no others. -/
def Covered (scope : HolScope) (byName : Table Value) : Prop :=
  ∀ name, name ∈ scope.names.names → name ∈ byName.names

theorem names_bind (scope : HolScope) (picked : List (Text × Text))
    (name : Text) :
    name ∈ (scope.bind picked).names.names ↔
      name ∈ picked.map Prod.fst ∨ name ∈ scope.names.names := by
  have found := scope.lookup?_bind picked name
  rw [← not_iff_not, ← Table.find?_eq_none_iff, ← lookup?, found,
    Table.find?_eq_none_iff]
  simp [Table.names]

theorem Covered.bind (covered : scope.Covered byName)
    (lengths : picked.length = values.length) :
    (scope.bind picked).Covered
      (byName.enter (picked.map Prod.fst) values) := by
  intro name member
  rw [Table.names_enter (by simpa using lengths), List.mem_append,
    List.mem_reverse]
  rcases (scope.names_bind picked name).mp member with inside | outside
  · exact .inl inside
  · exact .inr (covered name outside)

/-- A name without value denotes what is declared. -/
theorem Covered.identifier_eq (covered : scope.Covered byName) {name : Text}
    (unbound : byName.find? name = none) :
    scope.identifier name = escape name := by
  have outside : name ∉ scope.names.names := fun member =>
    Table.find?_eq_none_iff.mp unbound (covered name member)
  rw [identifier, lookup?, Table.find?_eq_none_iff.mpr outside,
    Option.getD_none]

/-- The identifier of a declared symbol is taken and no binder has it. -/
def Uncaptured (scope : HolScope) (byIdentifier : Table Value)
    (identifier : Text) : Prop :=
  identifier ∈ scope.taken ∧ byIdentifier.find? identifier = none

theorem Uncaptured.bind (picks : scope.Picks picked) {identifier : Text}
    (uncaptured : scope.Uncaptured byIdentifier identifier) :
    (scope.bind picked).Uncaptured
      (byIdentifier.enter (picked.map Prod.snd) values)
      identifier := by
  constructor
  · exact scope.taken_subset_bind picked uncaptured.1
  · rw [Table.find?_enter_of_not_mem (picks.not_mem_taken uncaptured.1)]
    exact uncaptured.2

/-! ## Binders that are entered together -/

/-- The identifiers that are picked for a scope are such that binders of their
names may get. -/
theorem picks_pick (scope : HolScope) (before : List Text)
    (requests : List (Text × List Text)) :
    scope.Picks (scope.pick before requests) := by
  induction requests generalizing before with
  | nil => exact fun _ member => absurd member List.not_mem_nil
  | cons request rest inductionHypothesis =>
      obtain ⟨name, avoided⟩ := request
      intro pair member
      rcases List.mem_cons.mp member with rfl | later
      · exact ⟨before ++ avoided, rfl⟩
      · exact inductionHypothesis _ pair later

@[simp]
theorem map_fst_pick (scope : HolScope) (before : List Text)
    (requests : List (Text × List Text)) :
    (scope.pick before requests).map Prod.fst = requests.map Prod.fst := by
  induction requests generalizing before with
  | nil => rfl
  | cons request rest inductionHypothesis =>
      rw [pick, List.map_cons, List.map_cons, inductionHypothesis]

@[simp]
theorem length_pick (scope : HolScope) (before : List Text)
    (requests : List (Text × List Text)) :
    (scope.pick before requests).length = requests.length := by
  have lengths := congrArg List.length (scope.map_fst_pick before requests)
  simpa only [List.length_map] using lengths

/-- The identifiers that typed binders get. -/
def pickBinders (scope : HolScope) (binders : Binders) : List (Text × Text) :=
  scope.pick [] (binders.map fun (name, _) => (name, []))

theorem map_fst_pickBinders (scope : HolScope) (binders : Binders) :
    (scope.pickBinders binders).map Prod.fst = binders.map Prod.fst := by
  simp [pickBinders, Function.comp_def]

theorem enterBinders_eq (vocabulary : Translation.Vocabulary) (scope : HolScope)
    (binders : Binders) :
    Translation.enterBinders vocabulary scope binders = (do
      let types ← binders.mapM fun (_, sort) => sort.toHol vocabulary.userSorts
      return (((scope.pickBinders binders).map Prod.snd).zip types,
        scope.bind (scope.pickBinders binders))) :=
  rfl

/-- In the translation of a let, no identifier is one that a later equation
refers to. -/
def Spares (scope : HolScope) (picked : List (Text × Text))
    (bindings : List (Text × Term)) : Prop :=
  (picked.zip bindings).Pairwise fun earlier later =>
    earlier.fst.snd ∉ Translation.references scope later.snd.snd

/-- No identifier of a let is referred to by a later equation. -/
private theorem pick_spares (scope : HolScope) (before : List Text)
    (seen bindings : List (Text × Term)) :
    scope.Spares
      (scope.pick before
        ((Translation.withOthers seen bindings).map fun ((name, _), others) =>
          (name, others.flatMap fun (_, term) =>
            Translation.references scope term)))
      bindings := by
  induction bindings generalizing before seen with
  | nil => simp [Spares]
  | cons binding rest inductionHypothesis =>
      obtain ⟨name, term⟩ := binding
      rw [Spares, Translation.withOthers, List.map_cons, pick,
        List.zip_cons_cons, List.pairwise_cons]
      refine ⟨?_, inductionHypothesis _ _⟩
      intro later member referred
      have inRest : later.snd ∈ rest := (List.of_mem_zip member).2
      have free := scope.fresh_not_mem name (before ++
        (seen ++ rest).flatMap fun (_, term) =>
          Translation.references scope term)
      apply free
      refine List.mem_append_right _ (List.mem_append_right _ ?_)
      exact List.mem_flatMap.mpr ⟨later.snd, List.mem_append_right _ inRest,
        referred⟩

theorem pick_letNames_spares (scope : HolScope)
    (bindings : List (Text × Term)) :
    scope.Spares (scope.pick [] (Translation.letNames scope bindings))
      bindings :=
  scope.pick_spares [] [] bindings

private theorem map_fst_withOthers {Element : Type}
    (seen elements : List Element) :
    (Translation.withOthers seen elements).map Prod.fst = elements := by
  induction elements generalizing seen with
  | nil => rfl
  | cons first rest inductionHypothesis =>
      rw [Translation.withOthers, List.map_cons, inductionHypothesis]

theorem map_fst_letNames (scope : HolScope) (bindings : List (Text × Term)) :
    (Translation.letNames scope bindings).map Prod.fst =
      bindings.map Prod.fst := by
  have elements := map_fst_withOthers [] bindings
  calc (Translation.letNames scope bindings).map Prod.fst
      = ((Translation.withOthers [] bindings).map Prod.fst).map Prod.fst := by
        simp [Translation.letNames, Function.comp_def]
    _ = bindings.map Prod.fst := by rw [elements]

/-- An identifier that no equation refers to leaves the agreement of their names
as it is. -/
theorem Agrees.of_not_mem_references {term : Term} {identifier : Text}
    {value : Value} (unused : identifier ∉ Translation.references scope term)
    {name : Text}
    (free : name ∈ term.freeNames)
    (agrees : scope.Agrees byName byIdentifier name) :
    scope.Agrees byName ((identifier, value) :: byIdentifier) name := by
  have different : identifier ≠ scope.identifier name := by
    rintro rfl
    exact unused (List.mem_map_of_mem free)
  rw [Agrees, Table.find?, if_neg different]
  exact agrees

theorem Uncaptured.cons {identifier other : Text} {value : Value}
    (free : other ∉ scope.taken)
    (uncaptured : scope.Uncaptured byIdentifier identifier) :
    scope.Uncaptured ((other, value) :: byIdentifier) identifier := by
  have different : other ≠ identifier := by
    rintro rfl
    exact free uncaptured.1
  refine ⟨uncaptured.1, ?_⟩
  rw [Table.find?, if_neg different]
  exact uncaptured.2

/-! ## Scopes of a translation -/

/-- The scopes that arise inside binders, with the names and identifiers of all
binders around, the last one at the end. -/
inductive Entered (symbols : SymbolTable) : HolScope → List (Text × Text) → Prop
  | root : Entered symbols (Translation.rootScope symbols) []
  | bind {scope : HolScope} {entries picked : List (Text × Text)} :
      Entered symbols scope entries → scope.Picks picked →
      Entered symbols (scope.bind picked) (entries ++ picked)

theorem Entered.faithful {symbols : SymbolTable} {entries : List (Text × Text)}
    (entered : Entered symbols scope entries) :
    scope.Faithful := by
  induction entered with
  | root =>
      intro name identifier found
      simp [lookup?, Translation.rootScope, ofNames, Table.find?] at found
  | bind _ picks inductionHypothesis => exact inductionHypothesis.bind picks

private theorem split_values {entries picked : List (Text × Text)}
    {values : List Value}
    (lengths : (entries ++ picked).length = values.length) :
    ∃ outer inner, values = outer ++ inner ∧ entries.length = outer.length ∧
      picked.length = inner.length := by
  rw [List.length_append] at lengths
  refine ⟨values.take entries.length, values.drop entries.length,
    (List.take_append_drop entries.length values).symm, ?_, ?_⟩
  · rw [List.length_take]
    omega
  · rw [List.length_drop]
    omega

/-- Values for the binders around a term, the last one at the end. -/
theorem Entered.agrees {symbols : SymbolTable} {entries : List (Text × Text)}
    (entered : Entered symbols scope entries)
    (lengths : entries.length = values.length)
    (name : Text) :
    scope.Agrees (Table.enter [] (entries.map Prod.fst) values)
      (Table.enter [] (entries.map Prod.snd) values) name := by
  induction entered generalizing values name with
  | root => simp [Agrees, Table.find?]
  | @bind scope entries picked entered picks inductionHypothesis =>
      obtain ⟨outer, inner, rfl, outerLength, innerLength⟩ :=
        split_values lengths
      rw [List.map_append, List.map_append,
        Table.enter_append (by simpa using outerLength),
        Table.enter_append (by simpa using outerLength)]
      exact Agrees.bind entered.faithful picks innerLength fun _ =>
        inductionHypothesis outerLength name

/-- Exactly the names of binders around have identifiers in the scope. -/
theorem Entered.covered {symbols : SymbolTable} {entries : List (Text × Text)}
    (entered : Entered symbols scope entries)
    (lengths : entries.length = values.length) :
    scope.Covered (Table.enter [] (entries.map Prod.fst) values) := by
  induction entered generalizing values with
  | root =>
      intro name member
      simp [Translation.rootScope, ofNames, Table.names] at member
  | @bind scope entries picked entered picks inductionHypothesis =>
      obtain ⟨outer, inner, rfl, outerLength, innerLength⟩ :=
        split_values lengths
      rw [List.map_append, Table.enter_append (by simpa using outerLength)]
      exact (inductionHypothesis outerLength).bind innerLength

/-- No binder takes the identifier of a declared symbol. -/
theorem Entered.uncaptured {symbols : SymbolTable}
    {entries : List (Text × Text)} (entered : Entered symbols scope entries)
    (lengths : entries.length = values.length)
    {name : Text} (declared : name ∈ symbols.declarations.names) :
    scope.Uncaptured (Table.enter [] (entries.map Prod.snd) values)
      (escape name) := by
  induction entered generalizing values with
  | root =>
      refine ⟨?_, by simp [Table.find?]⟩
      simpa [Translation.rootScope, ofNames, Table.values]
        using List.mem_map_of_mem declared
  | @bind scope entries picked entered picks inductionHypothesis =>
      obtain ⟨outer, inner, rfl, outerLength, _⟩ := split_values lengths
      rw [List.map_append, Table.enter_append (by simpa using outerLength)]
      exact (inductionHypothesis outerLength).bind picks

/-! ## What a translation needs of the binders around a term -/

/-- The names of a term lead to the same values on both sides, and no binder has
the identifier of a function that it applies. -/
structure Aligned (scope : HolScope) (byName byIdentifier : Table Value)
    (term : Term) :
    Prop where
  faithful : scope.Faithful
  covered : scope.Covered byName
  agrees : ∀ name ∈ term.freeNames, scope.Agrees byName byIdentifier name
  uncaptured : ∀ name, Head.function name ∈ term.heads →
    scope.Uncaptured byIdentifier (escape name)

variable {source : Term}

namespace Aligned

/-- A part of a term that sees the same binders. -/
theorem part (aligned : scope.Aligned byName byIdentifier source) {part : Term}
    (names : part.freeNames ⊆ source.freeNames)
    (heads : part.heads ⊆ source.heads) :
    scope.Aligned byName byIdentifier part where
  faithful := aligned.faithful
  covered := aligned.covered
  agrees name free := aligned.agrees name (names free)
  uncaptured name applied := aligned.uncaptured name (heads applied)

/-- A part of a term inside new binders. -/
theorem bind (aligned : scope.Aligned byName byIdentifier source) {part : Term}
    (picks : scope.Picks picked) (lengths : picked.length = values.length)
    (names : ∀ name ∈ part.freeNames, name ∉ picked.map Prod.fst →
      name ∈ source.freeNames)
    (heads : part.heads ⊆ source.heads) :
    (scope.bind picked).Aligned (byName.enter (picked.map Prod.fst) values)
      (byIdentifier.enter (picked.map Prod.snd) values) part where
  faithful := aligned.faithful.bind picks
  covered := aligned.covered.bind lengths
  agrees name free :=
    .bind aligned.faithful picks lengths fun outside =>
      aligned.agrees name (names name free outside)
  uncaptured name applied :=
    (aligned.uncaptured name (heads applied)).bind picks

/-- Below an equation of a let, the terms of the later ones still refer to the
same binders. -/
theorem cons (aligned : scope.Aligned byName byIdentifier source)
    {identifier : Text} {value : Value}
    (unused : identifier ∉ Translation.references scope source)
    (free : identifier ∉ scope.taken) :
    scope.Aligned byName ((identifier, value) :: byIdentifier) source where
  faithful := aligned.faithful
  covered := aligned.covered
  agrees name member :=
    (aligned.agrees name member).of_not_mem_references unused member
  uncaptured name member := (aligned.uncaptured name member).cons free

/-! The members of a term of each form. -/

theorem argument {head : Head} {indices : List Nat} {arguments : List Term}
    {sort : SmtSort}
    (aligned : scope.Aligned byName byIdentifier
      (.application head indices arguments sort)) :
    ∀ argument ∈ arguments, scope.Aligned byName byIdentifier argument := by
  intro argument member
  apply aligned.part
  · intro name free
    exact List.mem_append_left _
      (Term.mem_freeNamesOfAll.mpr ⟨argument, member, free⟩)
  · intro applied inside
    exact List.mem_cons_of_mem _
      (Term.mem_headsOfAll.mpr ⟨argument, member, inside⟩)

variable {bindings : List (Text × Term)} {body : Term}

theorem bound
    (aligned : scope.Aligned byName byIdentifier (.letIn bindings body)) :
    ∀ binding ∈ bindings, scope.Aligned byName byIdentifier binding.snd := by
  intro binding member
  apply aligned.part
  · intro name free
    exact List.mem_append_left _
      (Term.mem_freeNamesOfBindings.mpr ⟨binding, member, free⟩)
  · intro applied inside
    exact List.mem_append_left _
      (Term.mem_headsOfBindings.mpr ⟨binding, member, inside⟩)

/-- In the body of a let, names and identifiers stay aligned. -/
theorem letBody
    (aligned : scope.Aligned byName byIdentifier (.letIn bindings body))
    (picks : scope.Picks picked) (lengths : picked.length = values.length)
    (names : picked.map Prod.fst = bindings.map Prod.fst) :
    (scope.bind picked).Aligned (byName.enter (bindings.map Prod.fst) values)
      (byIdentifier.enter (picked.map Prod.snd) values) body := by
  rw [← names]
  apply aligned.bind picks lengths
  · intro name free outside
    rw [names] at outside
    exact List.mem_append_right _
      (List.mem_filter.mpr ⟨free, by simpa using outside⟩)
  · exact List.subset_append_right _ _

/-- In the body of a quantifier, names and identifiers stay aligned. -/
theorem quantifiedBody {quantifier : Quantifier} {binders : Binders}
    (aligned : scope.Aligned byName byIdentifier
      (.quantified quantifier binders body))
    (picks : scope.Picks picked) (lengths : picked.length = values.length)
    (names : picked.map Prod.fst = binders.map Prod.fst) :
    (scope.bind picked).Aligned (byName.enter (binders.map Prod.fst) values)
      (byIdentifier.enter (picked.map Prod.snd) values) body := by
  rw [← names]
  apply aligned.bind picks lengths
  · intro name free outside
    rw [names] at outside
    exact List.mem_filter.mpr ⟨free, by simpa using outside⟩
  · exact fun _ inside => inside

/-- The terms of a let after the first one, below its equation. -/
theorem later {pair : Text × Text} {rest : List (Text × Text)}
    {first : Text × Term}
    (aligned : ∀ binding ∈ bindings,
      scope.Aligned byName byIdentifier binding.snd)
    (spares : scope.Spares (pair :: rest) (first :: bindings))
    (picks : scope.Picks (pair :: rest))
    (lengths : rest.length = bindings.length)
    (value : Value) :
    ∀ binding ∈ bindings,
      scope.Aligned byName ((pair.snd, value) :: byIdentifier) binding.snd := by
  intro binding member
  rw [Spares, List.zip_cons_cons, List.pairwise_cons] at spares
  have free : pair.snd ∉ scope.taken :=
    fun taken => picks.not_mem_taken taken (by simp)
  have unused : pair.snd ∉ Translation.references scope binding.snd := by
    obtain ⟨index, inside, rfl⟩ := List.mem_iff_getElem.mp member
    have paired : (rest[index], bindings[index]) ∈ rest.zip bindings :=
      List.mem_iff_getElem.mpr ⟨index, by simpa [lengths] using inside, by simp⟩
    exact spares.1 _ paired
  exact (aligned binding member).cons unused free

end Aligned

theorem Picks.tail {pair : Text × Text} {rest : List (Text × Text)}
    (picks : scope.Picks (pair :: rest)) :
    scope.Picks rest :=
  fun later member => picks later (List.mem_cons_of_mem _ member)

theorem Spares.tail {pair : Text × Text} {rest : List (Text × Text)}
    {first : Text × Term} {others : List (Text × Term)}
    (spares : scope.Spares (pair :: rest) (first :: others)) :
    scope.Spares rest others := by
  rw [Spares, List.zip_cons_cons, List.pairwise_cons] at spares
  exact spares.2

/-- All functions that a term applies are declared. -/
def AppliesDeclared (symbols : SymbolTable) (source : Term) : Prop :=
  ∀ name, Head.function name ∈ source.heads → name ∈ symbols.declarations.names

theorem Entered.aligned {symbols : SymbolTable} {entries : List (Text × Text)}
    (entered : Entered symbols scope entries)
    (declared : AppliesDeclared symbols source)
    (values : List Value) (lengths : entries.length = values.length) :
    scope.Aligned (Table.enter [] (entries.map Prod.fst) values)
      (Table.enter [] (entries.map Prod.snd) values) source where
  faithful := entered.faithful
  covered := entered.covered lengths
  agrees name _ := entered.agrees lengths name
  uncaptured name applied := entered.uncaptured lengths (declared name applied)

end HolScope

end ModelAudit
