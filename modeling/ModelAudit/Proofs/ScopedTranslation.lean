import ModelAudit.Proofs.HolVariables
import ModelAudit.Proofs.ScopeAgreement
import ModelAudit.Proofs.WellSorted
import ModelAudit.Theory.Reachability

/-!
# Variables of translations

The free variables of a translated term are the identifiers of free names of the
term, and each of these names is bound around the term or declared. The
variables that it binds are new: none is an identifier that was taken outside.
-/

namespace ModelAudit

theorem SymbolTable.HasSignature.lookup?_ne_none {symbols : SymbolTable}
    {name : Text} {arguments : List SmtSort} {result : SmtSort}
    (signature : symbols.HasSignature name arguments result) :
    symbols.lookup? name ≠ none := by
  obtain ⟨declaration, found, _⟩ := signature
  simp [found]

namespace HolScope

variable {scope : HolScope} {picked : List (Text × Text)} {name : Text}

theorem identifier_bind_of_mem (member : name ∈ picked.map Prod.fst) :
    (scope.bind picked).identifier name ∈ picked.map Prod.snd := by
  have present : name ∈ Table.names picked.reverse := by
    simpa [Table.names] using member
  cases found : Table.find? picked.reverse name with
  | none => exact absurd present (Table.find?_eq_none_iff.mp found)
  | some identifier =>
      have inside := List.mem_reverse.mp (Table.mem_of_find?_eq_some found)
      rw [HolScope.identifier, lookup?_bind, Table.find?_append, found,
        Option.some_or, Option.getD_some]
      exact List.mem_map.mpr ⟨_, inside, rfl⟩

theorem identifier_bind_of_not_mem (outside : name ∉ picked.map Prod.fst) :
    (scope.bind picked).identifier name = scope.identifier name := by
  have absent : Table.find? picked.reverse name = none := by
    rw [Table.find?_eq_none_iff]
    simpa [Table.names] using outside
  rw [HolScope.identifier, lookup?_bind, Table.find?_append, absent,
    Option.none_or, HolScope.identifier, lookup?]

theorem Covered.enter {outer : Scope} (covered : scope.Covered outer)
    {binders : Binders} (names : picked.map Prod.fst = binders.map Prod.fst) :
    (scope.bind picked).Covered (outer.enter binders) := by
  intro name member
  rw [Scope.enter, Table.names, List.map_append, List.map_reverse,
    List.mem_append, List.mem_reverse, ← names]
  rcases (scope.names_bind picked name).mp member with inside | outside
  · exact .inl inside
  · exact .inr (covered name outside)

end HolScope

namespace Translation

variable {symbols : SymbolTable} {vocabulary : Vocabulary} {holScope : HolScope}
  {scope : Scope} {identifier : Text}

/-- The identifier is the one of some name among these that is bound around or
declared. -/
def Refers (symbols : SymbolTable) (holScope : HolScope) (scope : Scope)
    (names : List Text) (identifier : Text) : Prop :=
  ∃ name ∈ names, identifier = holScope.identifier name ∧
    (name ∈ Table.names scope ∨ symbols.lookup? name ≠ none)

theorem Refers.mono {names more : List Text}
    (refers : Refers symbols holScope scope names identifier)
    (subset : names ⊆ more) :
    Refers symbols holScope scope more identifier := by
  obtain ⟨name, inside, same, known⟩ := refers
  exact ⟨name, subset inside, same, known⟩

/-- What is referred to inside binders and is none of their identifiers is
referred to outside. -/
theorem Refers.leave {names : List Text} {picked : List (Text × Text)}
    {binders : Binders}
    (refers : Refers symbols (holScope.bind picked)
      (scope.enter binders) names identifier)
    (binderNames : picked.map Prod.fst = binders.map Prod.fst)
    (unbound : identifier ∉ picked.map Prod.snd) :
    Refers symbols holScope scope
      (names.filter fun name => !(binders.map Prod.fst).contains name)
        identifier := by
  obtain ⟨name, inside, rfl, known⟩ := refers
  have outside : name ∉ picked.map Prod.fst := fun member =>
    unbound (HolScope.identifier_bind_of_mem member)
  have notBinder : name ∉ binders.map Prod.fst := binderNames ▸ outside
  refine ⟨name, List.mem_filter.mpr ⟨inside, by simpa using notBinder⟩,
    HolScope.identifier_bind_of_not_mem outside,
    known.imp_left fun member => ?_⟩
  rw [Scope.enter, Table.names, List.map_append, List.map_reverse,
    List.mem_append, List.mem_reverse] at member
  exact member.resolve_left notBinder

/-- Variables that are new in a scope are new outside of binders as well. -/
theorem not_mem_taken_of_bind {picked : List (Text × Text)}
    (free : identifier ∉ (holScope.bind picked).taken) :
    identifier ∉ holScope.taken :=
  fun taken => free (holScope.taken_subset_bind picked taken)

/-- The translation refers to free names of the term only, and what it binds is
new. -/
structure ScopedIn (symbols : SymbolTable) (holScope : HolScope) (scope : Scope)
    (names : List Text) (translated : HolTerm) : Prop where
  free : ∀ identifier ∈ translated.freeVariables,
      Refers symbols holScope scope names identifier
  fresh : ∀ identifier ∈ translated.boundVariables, identifier ∉ holScope.taken

theorem ScopedIn.mono {names more : List Text} {translated : HolTerm}
    (within : ScopedIn symbols holScope scope names translated)
    (subset : names ⊆ more) :
    ScopedIn symbols holScope scope more translated where
  free identifier member := (within.free identifier member).mono subset
  fresh := within.fresh

/-- A term under binders that a scope has picked. -/
theorem ScopedIn.bound {names : List Text} {picked : List (Text × Text)}
    {binders : Binders} {types : List HolType} {binder : HolBinder}
    {translated : HolTerm}
    (within : ScopedIn symbols (holScope.bind picked)
      (scope.enter binders) names translated)
    (picks : holScope.Picks picked)
    (binderNames : picked.map Prod.fst = binders.map Prod.fst)
    (lengths : picked.length = types.length) :
    ScopedIn symbols holScope scope
      (names.filter fun name => !(binders.map Prod.fst).contains name)
      (.bound binder ((picked.map Prod.snd).zip types) translated) := by
  have identifiers :
      ((picked.map Prod.snd).zip types).map Prod.fst = picked.map Prod.snd :=
    List.map_fst_zip (by rw [List.length_map, lengths])
  constructor
  · intro identifier member
    rw [HolTerm.freeVariables, identifiers] at member
    obtain ⟨inside, unbound⟩ := List.mem_filter.mp member
    exact (within.free identifier inside).leave binderNames
      (by simpa using unbound)
  · intro identifier member
    rw [HolTerm.boundVariables, identifiers] at member
    rcases List.mem_append.mp member with here | inside
    · exact fun taken => picks.not_mem_taken taken here
    · exact not_mem_taken_of_bind (within.fresh identifier inside)

/-- Whatever the scope is that translates it, the translation of the term is
scoped in it. -/
def TranslatesScoped (symbols : SymbolTable) (vocabulary : Vocabulary)
    (source : Term) : Prop :=
  ∀ (holScope : HolScope) (scope : Scope) (translated : HolTerm),
    holScope.Covered scope →
    source.WellSorted symbols scope →
    term vocabulary holScope source = .ok translated →
    ScopedIn symbols holScope scope source.freeNames translated

theorem scopedIn_name {name : Text}
    (known : name ∈ Table.names scope ∨ symbols.lookup? name ≠ none) :
    ScopedIn symbols holScope scope [name]
      (.name (holScope.identifier name)) where
  free identifier member := by
    rw [HolTerm.freeVariables, List.mem_singleton] at member
    exact ⟨name, List.mem_singleton_self name, member, known⟩
  fresh identifier member := by
    rw [HolTerm.boundVariables] at member
    cases member

/-- An application is scoped if its arguments are. -/
theorem scopedIn_spell {names : List Text} {operator : Operator}
    {indices : List Nat} {arguments : List HolTerm} {sort : SmtSort}
    {translated : HolTerm}
    (within : ∀ argument ∈ arguments,
      ScopedIn symbols holScope scope names argument)
    (shape : spell vocabulary operator indices arguments sort =
      .ok translated) :
    ScopedIn symbols holScope scope names translated where
  free := (HolTerm.compositional_freeVariables _).spell
    (fun _ _ _ => Fixity.known_of_forall fun _ => trivial)
    (fun argument member => (within argument member).free) shape
  fresh := (HolTerm.compositional_boundVariables _).spell
    (fun _ _ _ => Fixity.known_of_forall fun _ => trivial)
    (fun argument member => (within argument member).fresh) shape

namespace TranslatesScoped

/-- Under typed binders, what the binders of the scope bind is no longer
free. -/
theorem underBinders {binders : Binders} {body : Term} {binder : HolBinder}
    {entered : List (Text × HolType) × HolScope} {inner : HolTerm}
    (bodyScoped : TranslatesScoped symbols vocabulary body)
    (covered : holScope.Covered scope)
    (wellSorted : body.WellSorted symbols (scope.enter binders))
    (enteredShape : enterBinders vocabulary holScope binders = .ok entered)
    (innerShape : term vocabulary entered.snd body = .ok inner) :
    ScopedIn symbols holScope scope
      (body.freeNames.filter fun name => !(binders.map Prod.fst).contains name)
      (.bound binder entered.fst inner) := by
  rw [HolScope.enterBinders_eq] at enteredShape
  obtain ⟨types, typesShape, enteredShape⟩ := Outcome.bind_eq_ok.mp enteredShape
  obtain rfl := Except.ok.inj enteredShape
  have binderNames := holScope.map_fst_pickBinders binders
  have scopedBody :=
    bodyScoped _ _ inner (covered.enter binderNames) wellSorted innerShape
  refine scopedBody.bound (holScope.picks_pick [] _) binderNames ?_
  have lengths := congrArg List.length binderNames
  rw [List.length_map, List.length_map] at lengths
  rw [lengths, (Outcome.mapM_eq_ok.mp typesShape).length_eq]

theorem literal (value : Literal) :
    TranslatesScoped symbols vocabulary (.literal value) := by
  intro holScope scope translated _ _ shape
  have empty : translated.freeVariables = [] ∧
      translated.boundVariables = [] := by
    cases value with
    | string contents =>
        change characters contents = .ok translated at shape
        unfold characters at shape
        split at shape
        · cases shape
        · obtain rfl := Except.ok.inj shape
          exact ⟨rfl, rfl⟩
    | bool value | integer value | decimal written | bitVector value width =>
        obtain rfl := Except.ok.inj shape
        exact ⟨rfl, rfl⟩
  constructor
  · rw [empty.1]
    exact fun _ member => absurd member List.not_mem_nil
  · rw [empty.2]
    exact fun _ member => absurd member List.not_mem_nil

theorem symbol (name : Text) (sort : SmtSort) :
    TranslatesScoped symbols vocabulary (.symbol name sort) := by
  intro holScope scope translated _ wellSorted shape
  obtain rfl := Except.ok.inj shape
  apply scopedIn_name
  rcases wellSorted with bound | ⟨_, signature⟩
  · exact .inl (List.mem_map.mpr ⟨_, Table.mem_of_find?_eq_some bound, rfl⟩)
  · exact .inr signature.lookup?_ne_none

theorem functionArray (function : Text) (index element : SmtSort) :
    TranslatesScoped symbols vocabulary
      (.functionArray function index element) := by
  intro holScope scope translated _ signature shape
  refine scopedIn_spell (List.forall_mem_singleton.mpr ?_) shape
  refine (scopedIn_name (.inr signature.lookup?_ne_none)).mono ?_
  exact List.cons_subset_cons function (List.nil_subset _)

theorem application {head : Head} {indices : List Nat} {arguments : List Term}
    {sort : SmtSort}
    (argumentsScoped : ∀ argument ∈ arguments,
      TranslatesScoped symbols vocabulary argument) :
    TranslatesScoped symbols vocabulary
      (.application head indices arguments sort) := by
  intro holScope scope translated covered wellSorted shape
  obtain ⟨fits, wellSortedArguments⟩ := wellSorted
  obtain ⟨results, resultsShape, shape⟩ := Outcome.bind_eq_ok.mp shape
  have within : ∀ result ∈ results, ScopedIn symbols holScope scope
      (Term.application head indices arguments sort).freeNames result := by
    refine Outcome.forall_mem_of_forall₂ (terms_eq_ok.mp resultsShape) ?_
    intro argument member result computed
    have inside := argumentsScoped argument member holScope scope result covered
      (Term.wellSortedAll_iff.mp wellSortedArguments argument member) computed
    refine inside.mono fun name free => List.mem_append_left _ ?_
    exact Term.mem_freeNamesOfAll.mpr ⟨argument, member, free⟩
  cases head with
  | operator applied => exact scopedIn_spell within shape
  | function name =>
      obtain rfl := Except.ok.inj shape
      have called : ScopedIn symbols holScope scope
          (Term.application (.function name) indices arguments sort).freeNames
          (.name (Identifier.escape name)) := by
        rw [← covered.identifier_eq fits.1]
        refine (scopedIn_name (.inr fits.2.lookup?_ne_none)).mono ?_
        exact fun _ member => List.mem_append_right _ member
      exact ⟨(HolTerm.compositional_freeVariables _).apply _ _ called.free
          fun result member => (within result member).free,
        (HolTerm.compositional_boundVariables _).apply _ _ called.fresh
          fun result member => (within result member).fresh⟩

/-- A let is scoped if its bound terms and its body are. -/
theorem letIn {bindings : List (Text × Term)} {body : Term}
    (bindingsScoped : ∀ binding ∈ bindings,
      TranslatesScoped symbols vocabulary binding.snd)
    (bodyScoped : TranslatesScoped symbols vocabulary body) :
    TranslatesScoped symbols vocabulary (.letIn bindings body) := by
  intro holScope scope translated covered wellSorted shape
  obtain ⟨wellSortedBindings, wellSortedBody, _⟩ := wellSorted
  obtain ⟨values, valuesShape, shape⟩ := Outcome.bind_eq_ok.mp shape
  obtain ⟨inner, innerShape, shape⟩ := Outcome.bind_eq_ok.mp shape
  obtain rfl := Except.ok.inj shape
  have translations := boundTerms_eq_ok.mp valuesShape
  have picks := holScope.picks_pick [] (letNames holScope bindings)
  have sourceNames :
      (holScope.pick [] (letNames holScope bindings)).map Prod.fst =
      bindings.map Prod.fst := by
    rw [HolScope.map_fst_pick, HolScope.map_fst_letNames]
  have binderNames :
      (holScope.pick [] (letNames holScope bindings)).map Prod.fst =
      (Term.letBinders bindings).map Prod.fst := by
    rw [sourceNames, Term.map_fst_letBinders]
  have identifiers :
      (((holScope.pick [] (letNames holScope bindings)).map Prod.snd).zip
      values).map Prod.fst = (holScope.pick [] (letNames holScope bindings)).map
        Prod.snd := by
    have lengths := congrArg List.length sourceNames
    rw [List.length_map, List.length_map, translations.length_eq] at lengths
    exact List.map_fst_zip (by rw [List.length_map, lengths])
  have scopedValues : ∀ value ∈ values, ScopedIn symbols holScope scope
      (Term.letIn bindings body).freeNames value := by
    refine Outcome.forall_mem_of_forall₂ translations
      fun binding member value computed => ?_
    have inside := bindingsScoped binding member holScope scope value covered
      (Term.wellSortedBindings_iff.mp wellSortedBindings binding member)
      computed
    refine inside.mono fun name free => List.mem_append_left _ ?_
    exact Term.mem_freeNamesOfBindings.mpr ⟨binding, member, free⟩
  have scopedBody :=
    bodyScoped _ _ inner (covered.enter binderNames) wellSortedBody innerShape
  constructor
  · intro identifier member
    rw [HolTerm.freeVariables] at member
    rcases HolTerm.of_mem_freeVariablesOfLet member
      with ⟨equation, inside, free⟩ | ⟨free, unbound⟩
    · exact (scopedValues equation.snd (List.of_mem_zip inside).2).free
        identifier free
    · rw [identifiers] at unbound
      have outside :=
        (scopedBody.free identifier free).leave binderNames unbound
      rw [Term.map_fst_letBinders] at outside
      exact outside.mono fun name free => List.mem_append_right _ free
  · intro identifier member
    rw [HolTerm.boundVariables, List.mem_append,
      HolTerm.mem_boundVariablesOfLet, identifiers] at member
    rcases member with (here | ⟨equation, inside, bound⟩) | inBody
    · exact fun taken => picks.not_mem_taken taken here
    · exact (scopedValues equation.snd (List.of_mem_zip inside).2).fresh
        identifier bound
    · exact not_mem_taken_of_bind (scopedBody.fresh identifier inBody)

theorem quantified {quantifier : Quantifier} {binders : Binders} {body : Term}
    (bodyScoped : TranslatesScoped symbols vocabulary body) :
    TranslatesScoped symbols vocabulary
      (.quantified quantifier binders body) := by
  intro holScope scope translated covered wellSorted shape
  obtain ⟨_, _, wellSortedBody, _⟩ := wellSorted
  obtain ⟨entered, enteredShape, shape⟩ := Outcome.bind_eq_ok.mp shape
  obtain ⟨inner, innerShape, shape⟩ := Outcome.bind_eq_ok.mp shape
  obtain rfl := Except.ok.inj shape
  exact bodyScoped.underBinders covered wellSortedBody enteredShape innerShape

end TranslatesScoped

/-- The translation of a well-sorted term is scoped in the scope that translates
it. -/
theorem translatesScoped (source : Term) :
    TranslatesScoped symbols vocabulary source := by
  induction source using Term.induction with
  | literal value => exact .literal value
  | symbol name sort => exact .symbol name sort
  | functionArray function index element =>
    exact .functionArray function index element
  | application head indices arguments sort argumentsScoped =>
    exact .application argumentsScoped
  | letIn bindings body bindingsScoped bodyScoped =>
    exact .letIn bindingsScoped bodyScoped
  | quantified quantifier binders body bodyScoped =>
    exact .quantified bodyScoped
  | annotated inner attributes innerScoped => exact innerScoped

/-! ## Definitions -/

/-- The value of a definition refers to declared names only, those that are free
in the body and no parameters. -/
theorem scopedIn_definitionValue {definition : Definition} {value : HolTerm}
    (covered : holScope.Covered ([] : Scope))
    (wellSorted : definition.body.WellSorted symbols
      (Scope.enter [] definition.params))
    (shape : definitionValue vocabulary holScope definition = .ok value) :
    ScopedIn symbols holScope [] definition.freeNames value := by
  unfold definitionValue at shape
  split at shape
  · next constant =>
    have noParams : definition.params = [] := List.isEmpty_iff.mp constant
    rw [noParams] at wellSorted
    refine (translatesScoped _ holScope [] value covered wellSorted shape).mono
      fun name free => ?_
    exact List.mem_filter.mpr ⟨free, by simp [noParams]⟩
  · obtain ⟨entered, enteredShape, shape⟩ := Outcome.bind_eq_ok.mp shape
    obtain ⟨inner, innerShape, shape⟩ := Outcome.bind_eq_ok.mp shape
    obtain rfl := Except.ok.inj shape
    exact (translatesScoped _).underBinders covered wellSorted enteredShape
      innerShape

end Translation

end ModelAudit
