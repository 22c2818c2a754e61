import ModelAudit.Proofs.Outcome
import ModelAudit.Proofs.ScopeAgreement

/-!
# Translation captures no name

Two ways to say which binder a name refers to meet here. On the side of HOL,
`HolTerm.byLevel` resolves every variable to the nearest binder with its
identifier, the equations of a let scoping one after the other, and writes the
number of binders around that binder in its place. On the side of SMT-LIB,
`Translation.leveled` translates a term whose binders are numbered in that way
from the start: a symbol refers to the nearest binder of its name, bound terms
are outside their let, and the last one of repeated names counts. The main
statement says that both yield the same term.
-/

namespace ModelAudit

/-- The name of the binder with the given number of binders around it. -/
def levelName (level : Nat) : Text :=
  "#" ++ Text.decimal level

/-- The levels of binders that are entered together. -/
def levelsFrom (depth count : Nat) : List Nat :=
  List.range' depth count

@[simp]
theorem length_levelsFrom (depth count : Nat) :
    (levelsFrom depth count).length = count := by
  simp [levelsFrom]

@[simp]
theorem levelsFrom_succ (depth count : Nat) :
    levelsFrom depth (count + 1) = depth :: levelsFrom (depth + 1) count := by
  simp [levelsFrom, List.range'_succ]

namespace HolTerm

mutual

/-- The term with each bound variable replaced by the level of its binder, given
the levels of the binders around and their count. A variable without binder
keeps its identifier; constants are no variables. -/
def byLevel (levels : Table Nat) (depth : Nat) : HolTerm → HolTerm
  | name identifier =>
    name (((levels.find? identifier).map levelName).getD identifier)
  | constant symbol => constant symbol
  | numeral digits type => numeral digits type
  | characters codes => characters codes
  | operatorSection symbol => operatorSection symbol
  | apply function arguments =>
    apply (byLevel levels depth function) (byLevelAll levels depth arguments)
  | operation symbol left right =>
    operation symbol (byLevel levels depth left) (byLevel levels depth right)
  | conjunction parts => conjunction (byLevelAll levels depth parts)
  | conditional test first second =>
    conditional (byLevel levels depth test) (byLevel levels depth first)
      (byLevel levels depth second)
  | update function argument value =>
    update (byLevel levels depth function) (byLevel levels depth argument)
      (byLevel levels depth value)
  | constantFunction argumentType value =>
    constantFunction argumentType (byLevel levels depth value)
  | typed function arguments type =>
    typed function (byLevelAll levels depth arguments) type
  | isIntegral number => isIntegral (byLevel levels depth number)
  | letIn equations body =>
    letIn (byLevelEquations levels depth equations)
      (byLevel
        (levels.enter (equations.map Prod.fst)
          (levelsFrom depth equations.length))
        (depth + equations.length) body)
  | bound binder names body =>
    bound binder
      (((levelsFrom depth names.length).map levelName).zip (names.map Prod.snd))
      (byLevel (levels.enter (names.map Prod.fst)
        (levelsFrom depth names.length))
      (depth + names.length) body)

def byLevelAll (levels : Table Nat) (depth : Nat) : List HolTerm → List HolTerm
  | [] => []
  | first :: others =>
    byLevel levels depth first :: byLevelAll levels depth others

/-- Each equation stands inside those before it. -/
def byLevelEquations (levels : Table Nat) (depth : Nat) :
    List (Text × HolTerm) → List (Text × HolTerm)
  | [] => []
  | (identifier, value) :: others =>
    (levelName depth, byLevel levels depth value) ::
      byLevelEquations ((identifier, depth) :: levels) (depth + 1) others

end

@[simp]
theorem byLevelAll_eq_map (levels : Table Nat) (depth : Nat)
    (terms : List HolTerm) :
    byLevelAll levels depth terms = terms.map (byLevel levels depth) := by
  induction terms with
  | nil => rfl
  | cons first others inductionHypothesis =>
    simp [byLevelAll, inductionHypothesis]

theorem byLevel_conjoin (levels : Table Nat) (depth : Nat)
    (parts : List HolTerm) :
    byLevel levels depth (conjoin parts) =
      conjoin (parts.map (byLevel levels depth)) := by
  match parts with
  | [] => simp [conjoin, truth, byLevel]
  | [part] => rfl
  | first :: second :: others => simp [conjoin, byLevel]

theorem byLevel_call (levels : Table Nat) (depth : Nat) (function : Text)
    (arguments : List HolTerm) :
    byLevel levels depth (call function arguments) =
      call function (arguments.map (byLevel levels depth)) := by
  simp [call, byLevel]

end HolTerm

/-! ## Spelling an operator moves its arguments as they are -/

namespace Template

theorem fill?_map_byLevel (template : Template) (levels : Table Nat)
    (depth : Nat) (arguments : List HolTerm) (indices : List Text)
    (type : HolType)
    (indexType : Option HolType) :
    template.fill? ⟨arguments.map (HolTerm.byLevel levels depth), indices, type,
      indexType⟩ =
      (template.fill? ⟨arguments, indices, type, indexType⟩).map
        (HolTerm.byLevel levels depth) := by
  match arguments with
  | [] => cases template <;> rfl
  | [_] | [_, _] | _ :: _ :: _ :: _ =>
      cases template with
      | wordSlice =>
          match indices with
          | [] | [_] => rfl
          | _ :: _ :: _ => simp [fill?, HolTerm.byLevel, HolTerm.byLevel_call]
      | constantFunction => cases indexType <;> simp [fill?, HolTerm.byLevel]
      | _ => simp [fill?, HolTerm.byLevel, HolTerm.byLevel_call]

end Template

namespace Translation

variable (levels : Table Nat) (depth : Nat)

theorem byLevel_binary (fixity : Fixity) (left right : HolTerm) :
    HolTerm.byLevel levels depth (binary fixity left right) =
      binary fixity (HolTerm.byLevel levels depth left)
        (HolTerm.byLevel levels depth right) := by
  cases fixity <;> simp [binary, HolTerm.byLevel, HolTerm.byLevel_call]

theorem byLevel_unary (spelling : Spelling) (argument : HolTerm) :
    HolTerm.byLevel levels depth (unary spelling argument) =
      unary spelling (HolTerm.byLevel levels depth argument) := by
  cases fixity : spelling.fixity <;> simp [unary, fixity, HolTerm.byLevel_call]

theorem pairs_map {Element Image : Type} (image : Element → Image)
    (elements : List Element) :
    pairs (elements.map image) = (pairs elements).map
      (Prod.map image image) := by
  induction elements with
  | nil => rfl
  | cons first others inductionHypothesis =>
      simp [pairs, inductionHypothesis, Function.comp_def]

theorem neighbours_map {Element Image : Type} (image : Element → Image)
    (elements : List Element) :
    neighbours (elements.map image) = (neighbours elements).map
      (Prod.map image image) := by
  rw [neighbours, neighbours, ← List.map_drop, List.zip_map]

theorem byLevel_foldRight (fixity : Fixity) (first : HolTerm)
    (others : List HolTerm) :
    HolTerm.byLevel levels depth (foldRight fixity first others) =
      foldRight fixity (HolTerm.byLevel levels depth first)
        (others.map (HolTerm.byLevel levels depth)) := by
  induction others generalizing first with
  | nil => rfl
  | cons second others inductionHypothesis =>
      simp [foldRight, byLevel_binary, inductionHypothesis]

theorem byLevel_foldLeft (fixity : Fixity) (first : HolTerm)
    (others : List HolTerm) :
    HolTerm.byLevel levels depth (others.foldl (binary fixity) first) =
      (others.map (HolTerm.byLevel levels depth)).foldl (binary fixity)
        (HolTerm.byLevel levels depth first) := by
  induction others generalizing first with
  | nil => rfl
  | cons second others inductionHypothesis =>
      simp only [List.foldl_cons, List.map_cons, inductionHypothesis,
        byLevel_binary]

theorem byLevel_holdsOf (fixity : Fixity) (couples : List (HolTerm × HolTerm)) :
    HolTerm.byLevel levels depth
        (.conjoin (couples.map fun (left, right) => binary fixity left right)) =
      .conjoin ((couples.map (Prod.map (HolTerm.byLevel levels depth)
        (HolTerm.byLevel levels depth))).map fun (left,
          right) => binary fixity left right) := by
  simp [HolTerm.byLevel_conjoin, Function.comp_def, byLevel_binary]

theorem byLevel_several (spelling : Spelling) (first : HolTerm)
    (others : List HolTerm) :
    HolTerm.byLevel levels depth (several spelling first others) =
      several spelling (HolTerm.byLevel levels depth first)
        (others.map (HolTerm.byLevel levels depth)) := by
  unfold several
  by_cases pairwise : spelling.pairwise = true
  · simp only [pairwise, if_true, byLevel_holdsOf, ← List.map_cons, pairs_map]
  · by_cases chainable : spelling.chainable = true
    · simp only [pairwise, chainable, Bool.false_eq_true, if_false, if_true,
        byLevel_holdsOf, ← List.map_cons, neighbours_map]
    · simp only [pairwise, chainable, Bool.false_eq_true, if_false]
      cases associativity : spelling.associativity with
      | none =>
          cases fixity : spelling.fixity <;>
            simp [byLevel_foldLeft, HolTerm.byLevel_call, HolTerm.byLevel]
      | some side => cases side <;> simp [byLevel_foldLeft, byLevel_foldRight]

theorem plain?_map_byLevel (spelling : Spelling) (arguments : List HolTerm) :
    plain? spelling (arguments.map (HolTerm.byLevel levels depth)) =
      (plain? spelling arguments).map (HolTerm.byLevel levels depth) := by
  match arguments with
  | [] => rfl
  | [argument] =>
      cases single : spelling.single with
      | none => simp [plain?, single, byLevel_unary]
      | some template =>
          simpa [plain?, single] using
            template.fill?_map_byLevel levels depth [argument] [] .bool none
  | first :: second :: others => simp [plain?, byLevel_several]

theorem spelled_map (operator : Operator) (term : Option HolTerm)
    (image : HolTerm → HolTerm) :
    spelled operator (term.map image) = (spelled operator term).map image := by
  cases term <;> rfl

/-- Spelling an operator does not depend on how the variables in its arguments
are named. -/
theorem spell_map_byLevel (vocabulary : Vocabulary) (operator : Operator)
    (indices : List Nat) (arguments : List HolTerm) (sort : SmtSort) :
    spell vocabulary operator indices
        (arguments.map (HolTerm.byLevel levels depth)) sort =
      (spell vocabulary operator indices arguments sort).map
        (HolTerm.byLevel levels depth) := by
  cases known : (vocabulary.operators operator).spelling? with
  | none => simp only [spell, known]; rfl
  | some spelling =>
      cases fixity : spelling.fixity with
      | templated template =>
          simp only [spell, known, fixity, Template.fill?_map_byLevel,
            spelled_map]
          cases sort.toHol vocabulary.userSorts with
          | error fault => rfl
          | ok type =>
              cases indexType? vocabulary sort with
              | error fault => rfl
              | ok indexType => rfl
      | _ => simp only [spell, known, fixity, plain?_map_byLevel, spelled_map]

/-! ## Terms whose binders are numbered from the start -/

/-- What a symbol refers to: the nearest binder of its name, or what is
declared. -/
def referent (levels : Table Nat) (name : Text) : HolTerm :=
  .name (((levels.find? name).map levelName).getD (Identifier.escape name))

/-- Typed binders under their levels. -/
def leveledBinders (vocabulary : Vocabulary) (depth : Nat) (binders : Binders) :
    Except Unsupported (List (Text × HolType)) := do
  let types ← binders.mapM fun (_, sort) => sort.toHol vocabulary.userSorts
  return ((levelsFrom depth binders.length).map levelName).zip types

mutual

/-- The translation in which each symbol stands for its binder in the sense of
SMT-LIB. Binders bind variables, which take no arguments, so an applied function
is always a declared one. -/
def leveled (vocabulary : Vocabulary) (levels : Table Nat) (depth : Nat) :
    Term → Except Unsupported HolTerm
  | .literal value => literal value
  | .symbol name _ => .ok (referent levels name)
  | .functionArray function index element =>
    spell vocabulary .functionArray [] [referent levels function]
      (.array index element)
  | .application head indices arguments sort => do
    let translated ← leveledAll vocabulary levels depth arguments
    match head with
    | .function name =>
      return .apply (.name (Identifier.escape name)) translated
    | .operator operator => spell vocabulary operator indices translated sort
  | .letIn bindings body => do
    let values ← leveledBindings vocabulary levels depth bindings
    let binderLevels := levelsFrom depth bindings.length
    let translated ← leveled vocabulary
      (levels.enter (bindings.map Prod.fst) binderLevels)
      (depth + bindings.length) body
    return .letIn ((binderLevels.map levelName).zip values) translated
  | .quantified quantifier binders body => do
    let typed ← leveledBinders vocabulary depth binders
    let binderLevels := levelsFrom depth binders.length
    let translated ← leveled vocabulary
      (levels.enter (binders.map Prod.fst) binderLevels)
      (depth + binders.length) body
    return .bound (binderOf quantifier) typed translated
  | .annotated inner _ => leveled vocabulary levels depth inner

def leveledAll (vocabulary : Vocabulary) (levels : Table Nat) (depth : Nat) :
    List Term → Except Unsupported (List HolTerm)
  | [] => .ok []
  | first :: others => do
    let translated ← leveled vocabulary levels depth first
    let rest ← leveledAll vocabulary levels depth others
    return translated :: rest

/-- Bound terms see no binder of their let, though each stands below those
before it. -/
def leveledBindings (vocabulary : Vocabulary) (levels : Table Nat)
    (depth : Nat) : List (Text × Term) → Except Unsupported (List HolTerm)
  | [] => .ok []
  | (_, first) :: others => do
    let translated ← leveled vocabulary levels depth first
    let rest ← leveledBindings vocabulary levels (depth + 1) others
    return translated :: rest

end

/-- The right side of a definition's equation with numbered binders. -/
def leveledDefinition (vocabulary : Vocabulary) (definition : Definition) :
    Except Unsupported HolTerm :=
  if definition.params.isEmpty then leveled vocabulary [] 0 definition.body
  else do
    let typed ← leveledBinders vocabulary 0 definition.params
    let binderLevels := levelsFrom 0 definition.params.length
    let body ← leveled vocabulary
      (Table.enter [] (definition.params.map Prod.fst) binderLevels)
      definition.params.length definition.body
    return .bound .abstraction typed body

/-! ## Both numberings agree -/

/-- Both numberings of a term agree, whatever the binders around are. -/
def NumberedAlike (vocabulary : Vocabulary) (source : Term) : Prop :=
  ∀ (scope : HolScope) (byName byIdentifier : Table Nat) (depth : Nat),
    scope.Aligned byName byIdentifier source →
    (term vocabulary scope source).map (HolTerm.byLevel byIdentifier depth) =
      leveled vocabulary byName depth source

variable {vocabulary : Vocabulary} {scope : HolScope}
  {byName byIdentifier : Table Nat}

private theorem terms_alike (depth : Nat) {sources : List Term}
    (alike : ∀ source ∈ sources, NumberedAlike vocabulary source)
    (aligned : ∀ source ∈ sources, scope.Aligned byName byIdentifier source) :
    (terms vocabulary scope sources).map
        (List.map (HolTerm.byLevel byIdentifier depth)) =
      leveledAll vocabulary byName depth sources := by
  induction sources with
  | nil => rfl
  | cons first others inductionHypothesis =>
      have head :=
        alike first (by simp) scope byName byIdentifier depth
          (aligned first (by simp))
      have tail := inductionHypothesis
        (fun source member => alike source (List.mem_cons_of_mem _ member))
        (fun source member => aligned source (List.mem_cons_of_mem _ member))
      rw [terms, leveledAll]
      rcases Outcome.map_cases head
        with ⟨fault, computed, expected⟩ | ⟨value, computed, expected⟩
      · rw [computed, expected]
        rfl
      · rw [computed, expected]
        rcases Outcome.map_cases tail with
          ⟨fault, computed, expected⟩ | ⟨values, computed, expected⟩
        · rw [computed, expected]
          rfl
        · rw [computed, expected]
          rfl

private theorem equations_alike {picked : List (Text × Text)}
    {bindings : List (Text × Term)} (depth : Nat)
    (alike : ∀ binding ∈ bindings, NumberedAlike vocabulary binding.snd)
    (aligned : ∀ binding ∈ bindings,
      scope.Aligned byName byIdentifier binding.snd)
    (lengths : picked.length = bindings.length) (picks : scope.Picks picked)
    (spares : scope.Spares picked bindings) :
    (boundTerms vocabulary scope bindings).map (fun values =>
        HolTerm.byLevelEquations byIdentifier depth
          ((picked.map Prod.snd).zip values)) =
      (leveledBindings vocabulary byName depth bindings).map fun values =>
        ((levelsFrom depth bindings.length).map levelName).zip values := by
  induction bindings generalizing picked byIdentifier depth with
  | nil =>
    simp [boundTerms, leveledBindings, HolTerm.byLevelEquations, Except.map]
  | cons first others inductionHypothesis =>
      obtain ⟨name, bound⟩ := first
      cases picked with
      | nil => simp at lengths
      | cons pair rest =>
          have lengthsRest : rest.length = others.length := by
            simpa using lengths
          have alignedRest := HolScope.Aligned.later
            (fun binding member => aligned binding
              (List.mem_cons_of_mem _ member))
            spares picks lengthsRest depth
          have head :=
            alike (name, bound) (by simp) scope byName byIdentifier depth
              (aligned (name, bound) (by simp))
          have tail := inductionHypothesis (depth + 1)
            (fun binding member => alike binding
              (List.mem_cons_of_mem _ member)) alignedRest
            lengthsRest picks.tail spares.tail
          rw [boundTerms, leveledBindings]
          rcases Outcome.map_cases head with ⟨fault, computed, expected⟩ |
            ⟨value, computed, expected⟩
          · rw [computed, expected]
            rfl
          · rw [computed, expected]
            rcases Outcome.map_eq_map_cases tail
              with ⟨fault, computed, expected⟩ |
              ⟨values, results, computed, expected, same⟩
            · rw [computed, expected]
              rfl
            · rw [computed, expected]
              simpa [HolTerm.byLevelEquations] using same

private theorem literal_byLevel (levels : Table Nat) (depth : Nat)
    (value : Literal) :
    (literal value).map (HolTerm.byLevel levels depth) = literal value := by
  cases value with
  | string contents =>
      rw [literal, characters]
      split <;> simp [Except.map, HolTerm.byLevel]
  | _ => simp [literal, Except.map, HolTerm.byLevel, HolTerm.truth]

/-- A name and its identifier refer to the same binder, or both to the declared
symbol. -/
private theorem name_byLevel_of_aligned {source : Term} {name : Text}
    (depth : Nat) (aligned : scope.Aligned byName byIdentifier source)
    (free : name ∈ source.freeNames) :
    HolTerm.byLevel byIdentifier depth (.name (scope.identifier name)) =
      referent byName name := by
  have agrees := aligned.agrees name free
  rw [HolScope.Agrees] at agrees
  rw [HolTerm.byLevel, agrees, referent]
  cases found : byName.find? name with
  | none =>
    rw [Option.map_none, Option.getD_none,
      aligned.covered.identifier_eq found]; rfl
  | some level => rfl

private theorem application_alike {head : Head} {indices : List Nat}
    {arguments : List Term} {sort : SmtSort}
    (alike : ∀ argument ∈ arguments, NumberedAlike vocabulary argument) :
    NumberedAlike vocabulary (.application head indices arguments sort) := by
  intro scope byName byIdentifier depth aligned
  rw [term, leveled]
  rcases Outcome.map_cases (terms_alike depth alike aligned.argument) with
    ⟨fault, computed, expected⟩ | ⟨values, computed, expected⟩
  · rw [computed, expected]
    rfl
  · rw [computed, expected]
    cases head with
    | operator operator =>
      exact (spell_map_byLevel _ depth vocabulary operator indices _ sort).symm
    | function name =>
        have free := (aligned.uncaptured name (by simp [Term.heads])).2
        simp [HolTerm.byLevel, free]

/-- A let is numbered alike: its equations stand one inside the other, but no
identifier of one is referred to in a later one. -/
private theorem let_alike {bindings : List (Text × Term)} {body : Term}
    (alike : ∀ binding ∈ bindings, NumberedAlike vocabulary binding.snd)
    (bodyAlike : NumberedAlike vocabulary body) :
    NumberedAlike vocabulary (.letIn bindings body) := by
  intro scope byName byIdentifier depth aligned
  let picked := scope.pick [] (letNames scope bindings)
  have names : picked.map Prod.fst = bindings.map Prod.fst := by
    rw [HolScope.map_fst_pick, HolScope.map_fst_letNames]
  have lengths : picked.length = bindings.length := by
    simpa using congrArg List.length names
  have picks : scope.Picks picked := scope.picks_pick [] _
  have equations := equations_alike depth alike aligned.bound lengths picks
    (scope.pick_letNames_spares bindings)
  have levelsLength :
      picked.length = (levelsFrom depth bindings.length).length := by
    simpa using lengths
  have inner := bodyAlike _ _ _ (depth + bindings.length)
    (aligned.letBody picks levelsLength names)
  rw [term, leveled]
  rcases Outcome.map_eq_map_cases equations with ⟨fault, computed, expected⟩ |
    ⟨values, results, computed, expected, same⟩
  · rw [computed, expected]
    rfl
  · have valuesLength := (boundTerms_eq_ok.mp computed).length_eq.symm
    have identifiers :
      ((picked.map Prod.snd).zip values).map Prod.fst = picked.map Prod.snd :=
      List.map_fst_zip (by simp [lengths, valuesLength])
    have count :
        ((picked.map Prod.snd).zip values).length = bindings.length := by
      simp [lengths, valuesLength]
    rw [computed, expected]
    simp only [Outcome.ok_bind]
    rcases Outcome.map_cases inner
      with ⟨fault, computed, expected⟩ | ⟨value, computed, expected⟩
    · rw [computed, expected]
      rfl
    · rw [computed, expected]
      change Except.ok (HolTerm.byLevel byIdentifier depth
        (.letIn ((picked.map Prod.snd).zip values) value)) = _
      rw [HolTerm.byLevel, identifiers, count, same]
      rfl

/-- Typed binders get their types on both sides or on none. -/
private theorem binders_alike (scope : HolScope) (binders : Binders)
    (depth : Nat) :
    (∃ fault, enterBinders vocabulary scope binders = .error fault ∧
        leveledBinders vocabulary depth binders = .error fault) ∨
      ∃ picked types,
        enterBinders vocabulary scope binders =
          .ok ((picked.map Prod.snd).zip types, scope.bind picked) ∧
        leveledBinders vocabulary depth binders =
          .ok (((levelsFrom depth binders.length).map levelName).zip types) ∧
        scope.Picks picked ∧ picked.map Prod.fst = binders.map Prod.fst ∧
        types.length = binders.length := by
  let picked := scope.pickBinders binders
  have names : picked.map Prod.fst = binders.map Prod.fst :=
    scope.map_fst_pickBinders binders
  rw [HolScope.enterBinders_eq, leveledBinders]
  cases typed : binders.mapM fun (_, sort) =>
    sort.toHol vocabulary.userSorts with
  | error fault => exact .inl ⟨fault, rfl, rfl⟩
  | ok types =>
      have count : types.length = binders.length :=
        (Outcome.mapM_eq_ok.mp typed).length_eq.symm
      exact .inr ⟨picked, types, rfl, rfl, scope.picks_pick [] _, names, count⟩

private theorem bound_byLevel (binder : HolBinder) {names : List Text}
    {types : List HolType} (lengths : types.length = names.length)
    (levels : Table Nat) (depth : Nat)
    (body : HolTerm) :
    HolTerm.byLevel levels depth (.bound binder (names.zip types) body) =
      .bound binder (((levelsFrom depth names.length).map levelName).zip types)
        (HolTerm.byLevel (levels.enter names (levelsFrom depth names.length))
          (depth + names.length) body) := by
  have identifiers : (names.zip types).map Prod.fst = names :=
    List.map_fst_zip (Nat.le_of_eq lengths.symm)
  have kept : (names.zip types).map Prod.snd = types :=
    List.map_snd_zip (Nat.le_of_eq lengths)
  have count : (names.zip types).length = names.length := by simp [lengths]
  rw [HolTerm.byLevel, identifiers, kept, count]

variable (vocabulary) in
/-- Quantifiers and the parameters of definitions bind in the same way. -/
private theorem bound_alike (binder : HolBinder) (depth : Nat)
    {quantifier : Quantifier} {binders : Binders} {body : Term}
    (bodyAlike : NumberedAlike vocabulary body)
    (aligned : scope.Aligned byName byIdentifier
      (.quantified quantifier binders body)) :
    Except.map (HolTerm.byLevel byIdentifier depth) (do
      let (typed, inner) ← enterBinders vocabulary scope binders
      let translated ← term vocabulary inner body
      return .bound binder typed translated) = (do
      let typed ← leveledBinders vocabulary depth binders
      let translated ← leveled vocabulary
        (byName.enter (binders.map Prod.fst) (levelsFrom depth binders.length))
        (depth + binders.length) body
      return .bound binder typed translated) := by
  rcases binders_alike scope binders depth with ⟨fault, computed, expected⟩ |
    ⟨picked, types, computed, expected, picks, names, count⟩
  · rw [computed, expected]
    rfl
  · have lengths : picked.length = binders.length := by
      simpa using congrArg List.length names
    have levelsLength :
        picked.length = (levelsFrom depth binders.length).length := by
      simpa using lengths
    have inner := bodyAlike _ _ _ (depth + binders.length)
      (aligned.quantifiedBody picks levelsLength names)
    rw [computed, expected]
    simp only [Outcome.ok_bind]
    rcases Outcome.map_cases inner
      with ⟨fault, computed, expected⟩ | ⟨value, computed, expected⟩
    · rw [computed, expected]
      rfl
    · have widths : types.length = (picked.map Prod.snd).length := by
        simp [count, lengths]
      rw [computed, expected]
      simp only [Outcome.ok_bind, Outcome.pure_eq, Outcome.map_ok,
        bound_byLevel _ widths, List.length_map, lengths]

/-- By induction on the term; the two numberings go through the same binders in
the same order. -/
theorem numberedAlike (source : Term) : NumberedAlike vocabulary source := by
  induction source using Term.induction with
  | literal value =>
      intro scope byName byIdentifier depth _
      rw [term, leveled, literal_byLevel]
  | symbol name sort =>
      intro scope byName byIdentifier depth aligned
      have free : name ∈ (Term.symbol name sort).freeNames :=
        List.mem_singleton_self name
      rw [term, leveled, Except.map, name_byLevel_of_aligned depth aligned free]
  | functionArray function index element =>
      intro scope byName byIdentifier depth aligned
      rw [term, leveled, ← spell_map_byLevel, List.map_singleton,
        name_byLevel_of_aligned depth aligned (by simp [Term.freeNames])]
  | application head indices arguments sort argumentsAlike =>
      exact application_alike argumentsAlike
  | letIn bindings body bindingsAlike bodyAlike =>
    exact let_alike bindingsAlike bodyAlike
  | quantified quantifier binders body bodyAlike =>
      intro scope byName byIdentifier depth aligned
      rw [term, leveled]
      exact bound_alike vocabulary (binderOf quantifier) depth bodyAlike aligned
  | annotated inner attributes innerAlike =>
      intro scope byName byIdentifier depth aligned
      rw [term, leveled]
      exact innerAlike scope byName byIdentifier depth
        (aligned.part (fun _ free => free) fun _ applied => applied)

/-! ## Scopes and definitions of a theory -/

variable {symbols : SymbolTable}

/-- Translation captures no name. In every scope that arises inside binders, all
names of the translation refer to the binders that the names of the source refer
to, or to what is declared; and so do those of a definition with its
parameters. -/
theorem translation_captureFree (vocabulary : Vocabulary)
    (symbols : SymbolTable) :
    (∀ scope entries source, HolScope.Entered symbols scope entries →
      HolScope.AppliesDeclared symbols source →
      (term vocabulary scope source).map
          (HolTerm.byLevel
            (Table.enter [] (entries.map Prod.snd)
              (levelsFrom 0 entries.length))
            entries.length) =
        leveled vocabulary
          (Table.enter [] (entries.map Prod.fst) (levelsFrom 0 entries.length))
          entries.length source) ∧
    ∀ definition : Definition,
      HolScope.AppliesDeclared symbols definition.body →
      (definitionValue vocabulary (rootScope symbols) definition).map
          (HolTerm.byLevel [] 0) =
        leveledDefinition vocabulary definition := by
  constructor
  · intro scope entries source entered declared
    exact numberedAlike source scope _ _ _
      (entered.aligned declared _ (by simp))
  · intro definition declared
    rw [definitionValue, leveledDefinition]
    by_cases constant : definition.params.isEmpty
    · rw [if_pos constant, if_pos constant]
      exact numberedAlike definition.body _ _ _ 0
        (HolScope.Entered.root.aligned declared [] rfl)
    · have declaredBelow : HolScope.AppliesDeclared symbols
          (.quantified .universal definition.params definition.body) := declared
      have aligned : (rootScope symbols).Aligned _ _ _ :=
        HolScope.Entered.root.aligned declaredBelow ([] : List Nat) rfl
      rw [if_neg constant, if_neg constant]
      simpa only [Nat.zero_add, List.map_nil, Table.enter_nil] using
        bound_alike vocabulary .abstraction 0
        (numberedAlike definition.body) aligned

def shadowedTable : SymbolTable :=
  ⟨[("x", ⟨"x", [], .int, .declared⟩),
    ("f", ⟨"f", [.int, .int], .int, .declared⟩)], [], []⟩

def swappingLet : Term :=
  .letIn [("x", .symbol "y" .int), ("y", .symbol "x" .int)]
    (.application (.function "f") [] [.symbol "x" .int, .symbol "y" .int] .int)

def outerBinders : List (Text × Text) :=
  (rootScope shadowedTable).pick [] [("x", []), ("y", [])]

/-- In a let that exchanges two names both of them get new identifiers. -/
theorem swappingLet_captureFree :
    let translated :=
  term ⟨.default, []⟩ ((rootScope shadowedTable).bind outerBinders) swappingLet
    translated.map HolTerm.text =
      .ok "(let x'2 = y; y'1 = x'1 in (f x'2 y'1))" ∧
      translated.map (HolTerm.byLevel
          (Table.enter [] (outerBinders.map Prod.snd)
            (levelsFrom 0 outerBinders.length))
          outerBinders.length) =
        .ok (.letIn [("#2", .name "#1"), ("#3", .name "#0")]
          (.apply (.name "f") [.name "#2", .name "#3"])) := by
  have entered : HolScope.Entered shadowedTable
      ((rootScope shadowedTable).bind outerBinders) ([] ++ outerBinders) :=
    .bind .root (HolScope.picks_pick _ _ _)
  have declared : HolScope.AppliesDeclared shadowedTable swappingLet := by
    intro name applied
    obtain rfl : name = "f" := by
      simpa [swappingLet, Term.heads, Term.headsOfAll, Term.headsOfBindings]
        using applied
    decide +kernel
  refine ⟨by decide +kernel, ?_⟩
  exact ((translation_captureFree ⟨.default, []⟩ shadowedTable).1 _ _ _ entered
    declared).trans rfl

end Translation

end ModelAudit
