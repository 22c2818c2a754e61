import ModelAudit.Expansion.Unfolding
import ModelAudit.Proofs.Dependency
import ModelAudit.Proofs.Outcome
import ModelAudit.Proofs.TermInduction

/-!
# Unfolding and cycles

Unfolding succeeds if and only if no path from the names that are unfolded leads
into a cycle.
-/

namespace ModelAudit

open Relation

/-! ## What unfolding makes use of -/

/-- The function that stands at the head, if it is no operator. -/
def Head.functions : Head → List Text
  | .operator _ => []
  | .function name => [name]

namespace Term

open Unfolding (Context)

mutual

/-- The declared symbols that unfolding a term comes upon inside some binders:
names that are not bound, and all functions that are applied or taken as
arrays. -/
def uses (context : Context) : Term → List Text
  | .literal _ => []
  | .symbol name _ => if context.contains name then [] else [name]
  | .functionArray function _ _ => [function]
  | .application head _ arguments _ =>
    usesOfAll context arguments ++ head.functions
  | .letIn bindings body =>
    usesOfBindings context bindings ++ uses
      (context.extend (bindings.map Prod.fst)) body
  | .quantified _ binders body =>
    uses (context.extend (binders.map Prod.fst)) body
  | .annotated inner _ => uses context inner

def usesOfAll (context : Context) : List Term → List Text
  | [] => []
  | first :: others => uses context first ++ usesOfAll context others

def usesOfBindings (context : Context) : List (Text × Term) → List Text
  | [] => []
  | (_, bound) :: others => uses context bound ++ usesOfBindings context others

end

theorem mem_usesOfAll {context : Context} {name : Text} {terms : List Term} :
    name ∈ usesOfAll context terms ↔
      ∃ term ∈ terms, name ∈ term.uses context := by
  induction terms with
  | nil => simp [usesOfAll]
  | cons first others inductionHypothesis =>
    simp [usesOfAll, inductionHypothesis]

theorem mem_usesOfBindings {context : Context} {name : Text}
    {bindings : List (Text × Term)} :
    name ∈ usesOfBindings context bindings ↔
      ∃ binding ∈ bindings, name ∈ binding.snd.uses context := by
  induction bindings with
  | nil => simp [usesOfBindings]
  | cons first others inductionHypothesis =>
    simp [usesOfBindings, inductionHypothesis]

end Term

/-- The declared symbols that unfolding a definition comes upon. -/
def Definition.uses (definition : Definition) : List Text :=
  definition.body.uses
    (Unfolding.Context.extend [] (definition.params.map Prod.fst))

namespace Unfolding

variable {state : State} {context : Context} {name : Text}

/-- The symbol is not being unfolded, and its definition, if there is one, is
unfolded. -/
def Opens (state : State) (name : Text) : Prop :=
  name ∉ state.entered ∧
    ∀ definition, state.available.find? name = some definition →
    ∃ expression, term (state.enter name)
      (Context.extend [] (definition.params.map Prod.fst)) definition.body =
        .ok expression

/-- Whether a symbol can be unfolded does not depend on what it is applied
to. -/
theorem symbol_eq_ok_iff (arguments : List Expression) (sort : SmtSort) :
    (∃ expression, symbol state name arguments sort = .ok expression) ↔
      Opens state name := by
  rw [symbol]
  constructor
  · rintro ⟨expression, unfolded⟩
    split at unfolded
    · cases unfolded
    · next outside =>
      refine ⟨by simpa using outside, ?_⟩
      intro definition found
      split at unfolded
      · next absent =>
        rw [found] at absent
        cases absent
      · next other otherFound =>
        obtain rfl := Option.some.inj (found.symm.trans otherFound)
        obtain ⟨body, bodyUnfolded, _⟩ := Outcome.bind_eq_ok.mp unfolded
        exact ⟨body, bodyUnfolded⟩
  · rintro ⟨outside, bodies⟩
    rw [if_neg (by simpa using outside)]
    split
    · exact ⟨_, rfl⟩
    · next definition found =>
        exact Outcome.exists_map_eq_ok.mpr (bodies definition found)

private theorem terms_eq_ok_iff {sources : List Term}
    (each : ∀ source ∈ sources,
      (∃ expression, term state context source = .ok expression) ↔
      ∀ name ∈ source.uses context, Opens state name) :
    (∃ expressions, terms state context sources = .ok expressions) ↔
      ∀ name ∈ Term.usesOfAll context sources, Opens state name := by
  induction sources with
  | nil => simp [terms, Term.usesOfAll]
  | cons first others inductionHypothesis =>
      obtain ⟨head, tail⟩ := List.forall_mem_cons.mp each
      rw [Term.usesOfAll, List.forall_mem_append, ← head,
        ← inductionHypothesis tail, terms]
      exact Outcome.exists_map₂_eq_ok

private theorem boundTerms_eq_ok_iff {sources : List (Text × Term)}
    (each : ∀ source ∈ sources,
      (∃ expression, term state context source.snd = .ok expression) ↔
        ∀ name ∈ source.snd.uses context, Opens state name) :
    (∃ expressions, boundTerms state context sources = .ok expressions) ↔
      ∀ name ∈ Term.usesOfBindings context sources, Opens state name := by
  induction sources with
  | nil => simp [boundTerms, Term.usesOfBindings]
  | cons first others inductionHypothesis =>
      obtain ⟨head, tail⟩ := List.forall_mem_cons.mp each
      rw [Term.usesOfBindings, List.forall_mem_append, ← head,
        ← inductionHypothesis tail, boundTerms]
      exact Outcome.exists_map₂_eq_ok

/-- A term is unfolded if and only if all declared symbols are that it makes use
of. -/
theorem term_eq_ok_iff (state : State) (source : Term) :
    ∀ context, (∃ expression, term state context source = .ok expression) ↔
      ∀ name ∈ source.uses context, Opens state name := by
  induction source using Term.induction with
  | literal value =>
      intro context
      simp [term, Term.uses]
  | symbol name sort =>
      intro context
      have bound : context.contains name = (context.index? name).isSome := by
        rw [Context.index?, Bool.eq_iff_iff, List.contains_iff_mem,
          List.isSome_idxOf?]
      rw [term, Term.uses, bound]
      cases context.index? name with
      | none => simpa using symbol_eq_ok_iff [] sort
      | some index => simp
  | functionArray function index element =>
      intro context
      rw [term, Term.uses, List.forall_mem_singleton]
      exact Outcome.exists_map_eq_ok.trans
        (symbol_eq_ok_iff [.bound 0 index] element)
  | application head indices arguments sort argumentsHypothesis =>
      intro context
      have unfolded := terms_eq_ok_iff fun source member =>
        argumentsHypothesis source member context
      rw [term, Term.uses, List.forall_mem_append, ← unfolded]
      cases head with
      | operator operator =>
        simpa [Head.functions] using Outcome.exists_map_eq_ok
      | function name =>
          rw [Head.functions, List.forall_mem_singleton]
          constructor
          · rintro ⟨expression, applied⟩
            obtain ⟨values, unfolded, applied⟩ := Outcome.bind_eq_ok.mp applied
            exact ⟨⟨values, unfolded⟩,
              (symbol_eq_ok_iff values sort).mp ⟨expression, applied⟩⟩
          · rintro ⟨⟨values, unfolded⟩, opens⟩
            rw [unfolded]
            exact (symbol_eq_ok_iff values sort).mpr opens
  | letIn bindings body bindingsHypothesis bodyHypothesis =>
      intro context
      rw [Term.uses, List.forall_mem_append, ← bodyHypothesis,
        ← boundTerms_eq_ok_iff fun source member =>
          bindingsHypothesis source member context, term]
      exact Outcome.exists_map₂_eq_ok
  | quantified quantifier binders body bodyHypothesis =>
      intro context
      rw [Term.uses, ← bodyHypothesis, term]
      exact Outcome.exists_map_eq_ok
  | annotated inner attributes innerHypothesis =>
      intro context
      rw [Term.uses, ← innerHypothesis, term]

/-! ## Paths of unfolding -/

/-- The state may enter all definitions of a table but those that are being
unfolded. -/
def State.Tracks (state : State) (table : Table Definition) : Prop :=
  ∀ name, state.available.find? name = if name ∈ state.entered then none
    else table.find? name

variable {table : Table Definition}

theorem State.Tracks.enter (tracks : state.Tracks table) (name : Text) :
    (state.enter name).Tracks table := by
  intro other
  have removed := Table.find?_erase state.available name other
  rw [tracks other] at removed
  rw [State.enter, removed]
  by_cases same : other = name
  · simp [same]
  · simp [same]

/-- A symbol is unfolded if and only if no path from it leads to a symbol that
is already being unfolded, or into a cycle. -/
theorem opens_iff (state : State) (tracks : state.Tracks table) (name : Text) :
    Opens state name ↔
      ∀ target, ReflTransGen (Leads Definition.uses table) name target →
        target ∉ state.entered ∧
        ¬TransGen (Leads Definition.uses table) target target := by
  constructor
  · rintro ⟨outside, bodies⟩ target path
    have further (other : Text) (leads : Leads Definition.uses table name other)
        (target : Text)
        (path : ReflTransGen (Leads Definition.uses table) other target) :
        target ∉ name :: state.entered ∧
          ¬TransGen (Leads Definition.uses table) target target := by
      obtain ⟨definition, found, used⟩ := leads
      have available : state.available.find? name = some definition := by
        rw [tracks name, if_neg outside, found]
      have shorter := state.enter_lt name definition available
      have opens := (term_eq_ok_iff (state.enter name) definition.body _).mp
        (bodies definition available) other used
      exact (opens_iff (state.enter name) (tracks.enter name) other).mp opens
        target path
    rcases path.cases_head with rfl | ⟨other, leads, rest⟩
    · refine ⟨outside, fun cycle => ?_⟩
      obtain ⟨other, leads, rest⟩ := TransGen.head'_iff.mp cycle
      exact (further other leads name rest).1 List.mem_cons_self
    · obtain ⟨unentered, acyclic⟩ := further other leads target rest
      exact ⟨fun member => unentered (List.mem_cons_of_mem _ member), acyclic⟩
  · intro paths
    obtain ⟨outside, acyclic⟩ := paths name .refl
    refine ⟨outside, fun definition available => ?_⟩
    apply (term_eq_ok_iff (state.enter name) definition.body _).mpr
    intro other used
    have shorter := state.enter_lt name definition available
    have leads : Leads Definition.uses table name other := by
      rw [tracks name, if_neg outside] at available
      exact ⟨definition, available, used⟩
    apply (opens_iff (state.enter name) (tracks.enter name) other).mpr
    intro target path
    obtain ⟨unentered, targetAcyclic⟩ := paths target (.head leads path)
    refine ⟨?_, targetAcyclic⟩
    intro member
    rcases List.mem_cons.mp member with rfl | entered
    · exact acyclic (.head' leads path)
    · exact unentered entered
termination_by state.available.length

/-- Assertions are unfolded if and only if no symbol that they use leads into a
cycle. -/
theorem assertions_eq_ok_iff {definitions : List Definition}
    {subjects : List Term} :
    (∃ expressions, assertions definitions subjects = .ok expressions) ↔
      ∀ subject ∈ subjects, ∀ first ∈ subject.uses [],
        ¬LeadsIntoCycle Definition.uses
          (definitionTable definitions) first := by
  have tracks :
      (State.start definitions).Tracks (definitionTable definitions) := by
    intro name
    rw [State.start, if_neg List.not_mem_nil]
    rfl
  have unfolded :
      (∃ expressions, terms (State.start definitions) [] subjects =
        .ok expressions) ↔
      ∀ name ∈ Term.usesOfAll [] subjects,
        Opens (State.start definitions) name :=
    terms_eq_ok_iff fun source _ => term_eq_ok_iff _ source []
  rw [assertions, unfolded]
  constructor
  · rintro opens subject inside first used ⟨name, path, cycle⟩
    have open? := opens first (Term.mem_usesOfAll.mpr ⟨subject, inside, used⟩)
    exact ((opens_iff _ tracks first).mp open? name path).2 cycle
  · intro outside first used
    obtain ⟨subject, inside, used⟩ := Term.mem_usesOfAll.mp used
    apply (opens_iff _ tracks first).mpr
    intro target path
    exact ⟨List.not_mem_nil,
      fun cycle => outside subject inside first used ⟨target, path, cycle⟩⟩

end Unfolding

end ModelAudit
