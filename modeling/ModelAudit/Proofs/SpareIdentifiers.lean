import ModelAudit.Proofs.ScopeAgreement

/-!
# Identifiers that no binder asks for

A binder gets its escaped name unless that is in use, and else the first primed
one that is not. It asks for no other identifier, so a symbol that no binder is
named after may be declared or not, and all terms are translated alike.
-/

namespace ModelAudit

open Identifier

namespace Term

mutual

/-- The names that binders inside a term bind; a name may be listed more than
once. -/
def boundNames : Term → List Text
  | literal _ | symbol _ _ | functionArray _ _ _ => []
  | application _ _ arguments _ => boundNamesOfAll arguments
  | letIn bindings body =>
    bindings.map Prod.fst ++ boundNamesOfBindings bindings ++ body.boundNames
  | quantified _ binders body => binders.map Prod.fst ++ body.boundNames
  | annotated term _ => term.boundNames

def boundNamesOfAll : List Term → List Text
  | [] => []
  | term :: terms => boundNames term ++ boundNamesOfAll terms

def boundNamesOfBindings : List (Text × Term) → List Text
  | [] => []
  | (_, bound) :: bindings => boundNames bound ++ boundNamesOfBindings bindings

end

theorem mem_boundNamesOfAll {name : Text} {terms : List Term} :
    name ∈ boundNamesOfAll terms ↔ ∃ term ∈ terms, name ∈ term.boundNames := by
  induction terms with
  | nil => simp [boundNamesOfAll]
  | cons first others inductionHypothesis =>
    simp [boundNamesOfAll, inductionHypothesis]

theorem mem_boundNamesOfBindings {name : Text} {bindings : List (Text × Term)} :
    name ∈ boundNamesOfBindings bindings ↔
      ∃ binding ∈ bindings, name ∈ binding.snd.boundNames := by
  induction bindings with
  | nil => simp [boundNamesOfBindings]
  | cons first others inductionHypothesis =>
    simp [boundNamesOfBindings, inductionHypothesis]

end Term

/-- The names of a definition's parameters and of the binders in its body. -/
def Definition.boundNames (definition : Definition) : List Text :=
  definition.params.map Prod.fst ++ definition.body.boundNames

theorem Outcome.mapM_congr {Fault Element Value : Type}
    {image other : Element → Except Fault Value} {elements : List Element}
    (same : ∀ element ∈ elements, image element = other element) :
    elements.mapM image = elements.mapM other := by
  induction elements with
  | nil => rfl
  | cons first others inductionHypothesis =>
      rw [List.forall_mem_cons] at same
      rw [List.mapM_cons, List.mapM_cons, same.1, inductionHypothesis same.2]

namespace HolScope

variable {spare base : Text} {scope other : HolScope}

/-! ## New identifiers -/

theorem firstPrimed_congr {avoided others : List Text}
    (same : ∀ number, primed base number ∈ avoided ↔
      primed base number ∈ others) :
    firstPrimed base avoided = firstPrimed base others := by
  obtain ⟨index, shape, free, used⟩ := firstPrimed_spec base avoided
  obtain ⟨other, otherShape, otherFree, otherUsed⟩ :=
    firstPrimed_spec base others
  rcases Nat.lt_trichotomy index other with less | rfl | greater
  · exact absurd ((same _).mpr (otherUsed index less)) free
  · rw [shape, otherShape]
  · exact absurd ((same _).mp (used other greater)) otherFree

/-- The scopes have the same names, and the same identifiers are in use, save
perhaps that of one symbol. -/
structure AgreeExcept (spare : Text) (scope other : HolScope) : Prop where
  names : scope.names = other.names
  taken : ∀ identifier, identifier ≠ escape spare →
    (identifier ∈ scope.taken ↔ identifier ∈ other.taken)

theorem AgreeExcept.identifier_eq (agree : AgreeExcept spare scope other)
    (name : Text) :
    scope.identifier name = other.identifier name := by
  rw [identifier, identifier, lookup?, lookup?, agree.names]

/-- A binder of another name gets the same identifier. -/
theorem AgreeExcept.fresh_eq (agree : AgreeExcept spare scope other)
    {name : Text} (differs : name ≠ spare) (avoided : List Text) :
    scope.fresh name avoided = other.fresh name avoided := by
  have sameUse (identifier : Text) (apart : identifier ≠ escape spare) :
      identifier ∈ scope.taken ++ avoided ↔
        identifier ∈ other.taken ++ avoided := by
    rw [List.mem_append, List.mem_append, agree.taken identifier apart]
  have unescaped : escape name ≠ escape spare :=
    fun same => differs (escape_injective same)
  have primedApart (number : Nat) :
      primed (escape name) number ≠ escape spare := fun same =>
    prime_not_mem_escape spare (same ▸ prime_mem_primed _ _)
  have sameContains : (scope.taken ++ avoided).contains (escape name) =
      (other.taken ++ avoided).contains (escape name) := by
    rw [Bool.eq_iff_iff, List.contains_iff_mem, List.contains_iff_mem,
      sameUse _ unescaped]
  rw [fresh, fresh, sameContains,
    firstPrimed_congr fun number => sameUse _ (primedApart number)]

theorem AgreeExcept.pick_eq (agree : AgreeExcept spare scope other)
    {requests : List (Text × List Text)}
    (unasked : spare ∉ requests.map Prod.fst)
    (before : List Text) :
    scope.pick before requests = other.pick before requests := by
  induction requests generalizing before with
  | nil => rfl
  | cons request requests inductionHypothesis =>
      obtain ⟨name, avoided⟩ := request
      rw [List.map_cons, List.mem_cons, not_or] at unasked
      rw [pick, pick, agree.fresh_eq (Ne.symm unasked.1),
        inductionHypothesis unasked.2]

/-- Scopes that agree save for one symbol do so inside binders as well. -/
theorem AgreeExcept.bind (agree : AgreeExcept spare scope other)
    (pairs : List (Text × Text)) :
    AgreeExcept spare (scope.bind pairs) (other.bind pairs) := by
  have mem_ofNames (names : Table Text) (taken : List Text)
      (identifier : Text) :
      identifier ∈ (ofNames names taken).taken ↔
        identifier ∈ taken ∨ identifier ∈ names.values := by
    simp only [ofNames, List.mem_append, List.mem_filter, Bool.not_eq_true',
      List.contains_eq_mem, decide_eq_false_iff_not]
    tauto
  refine ⟨by rw [HolScope.bind, HolScope.bind, agree.names]; rfl,
    fun identifier apart => ?_⟩
  rw [HolScope.bind, HolScope.bind, mem_ofNames, mem_ofNames, agree.names,
    agree.taken identifier apart]

end HolScope

/-! ## Translations -/

namespace Translation

open HolScope

variable {spare : Text} {scope other : HolScope}

theorem letNames_congr (agree : AgreeExcept spare scope other)
    (bindings : List (Text × Term)) :
    letNames scope bindings = letNames other bindings := by
  simp only [letNames, references, funext agree.identifier_eq]

/-- What stands under typed binders is translated alike if it is so under all
the same identifiers. -/
theorem underBinders_congr {vocabulary : Vocabulary} {binders : Binders}
    {body : Term} (agree : AgreeExcept spare scope other)
    (unbound : spare ∉ binders.map Prod.fst)
    (inside : ∀ pairs, term vocabulary (scope.bind pairs) body =
      term vocabulary (other.bind pairs) body)
    (result : List (Text × HolType) → HolTerm → HolTerm) :
    (do
      let (typed, inner) ← enterBinders vocabulary scope binders
      let translated ← term vocabulary inner body
      return result typed translated) =
    (do
      let (typed, inner) ← enterBinders vocabulary other binders
      let translated ← term vocabulary inner body
      return result typed translated) := by
  have picked : scope.pickBinders binders = other.pickBinders binders :=
    agree.pick_eq (by simpa [Function.comp_def] using unbound) []
  rw [enterBinders_eq, enterBinders_eq, picked]
  simp only [bind_assoc, pure_bind, inside]

/-- A term is translated alike in both scopes, if none of its binders is named
after the symbol. -/
theorem term_congr (vocabulary : Vocabulary) (source : Term) :
    ∀ {scope other : HolScope}, AgreeExcept spare scope other →
      spare ∉ source.boundNames →
      term vocabulary scope source = term vocabulary other source := by
  induction source using Term.induction with
  | literal value => exact fun _ _ => rfl
  | symbol name sort =>
      intro scope other agree _
      rw [term, term, agree.identifier_eq]
  | functionArray function index element =>
      intro scope other agree _
      rw [term, term, agree.identifier_eq]
  | application head indices arguments sort inductionHypothesis =>
      intro scope other agree unbound
      rw [Term.boundNames, Term.mem_boundNamesOfAll] at unbound
      have same : terms vocabulary scope arguments =
          terms vocabulary other arguments := by
        rw [terms_eq_mapM, terms_eq_mapM]
        exact Outcome.mapM_congr fun argument member =>
          inductionHypothesis argument member agree fun bound =>
            unbound ⟨argument, member, bound⟩
      rw [term, term, same]
  | letIn bindings body boundHypothesis bodyHypothesis =>
      intro scope other agree unbound
      simp only [Term.boundNames, List.mem_append, not_or,
        Term.mem_boundNamesOfBindings] at unbound
      obtain ⟨⟨unnamed, unboundValues⟩, unboundBody⟩ := unbound
      have values :
          boundTerms vocabulary scope bindings =
            boundTerms vocabulary other bindings := by
        rw [boundTerms_eq_mapM, boundTerms_eq_mapM]
        exact Outcome.mapM_congr fun binding member =>
          boundHypothesis binding member agree fun bound =>
            unboundValues ⟨binding, member, bound⟩
      have picked : scope.pick [] (letNames scope bindings) =
          other.pick [] (letNames other bindings) := by
        rw [letNames_congr agree]
        exact agree.pick_eq (by rwa [map_fst_letNames]) []
      rw [term, term, values, picked]
      dsimp only
      rw [bodyHypothesis (agree.bind _) unboundBody]
  | quantified quantifier binders body bodyHypothesis =>
      intro scope other agree unbound
      rw [Term.boundNames, List.mem_append, not_or] at unbound
      rw [term, term]
      exact underBinders_congr agree unbound.1
        (fun pairs => bodyHypothesis (agree.bind pairs) unbound.2) _
  | annotated inner attributes inductionHypothesis =>
      intro scope other agree unbound
      rw [term, term]
      exact inductionHypothesis agree unbound

/-- The equation of a definition that does not bind the symbol is the same in
both scopes. -/
theorem equation_congr (vocabulary : Vocabulary)
    (agree : AgreeExcept spare scope other) {definition : Definition}
    (unbound : spare ∉ definition.boundNames) :
    equation vocabulary scope definition =
      equation vocabulary other definition := by
  rw [Definition.boundNames, List.mem_append, not_or] at unbound
  have same : definitionValue vocabulary scope definition =
      definitionValue vocabulary other definition := by
    rw [definitionValue, definitionValue]
    split
    · exact term_congr vocabulary definition.body agree unbound.2
    · exact underBinders_congr agree unbound.1
        (fun pairs => term_congr vocabulary definition.body
          (agree.bind pairs) unbound.2) _
  rw [equation, equation, same]

end Translation

end ModelAudit
