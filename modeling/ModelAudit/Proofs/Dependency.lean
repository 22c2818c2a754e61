import Mathlib.Logic.Relation
import ModelAudit.Proofs.DefinitionTable
import ModelAudit.Theory.Obligation

/-!
# Dependencies between definitions

Definitions make up a graph over names. The names that assertions depend on are
those that paths lead to, and the kept definitions are circular if and only if
some path from the assertions leads into a cycle.
-/

namespace ModelAudit

open Relation

namespace Table

variable {Value : Type}

theorem find?_erase (table : Table Value) (name other : Text) :
    (table.erase name).find? other = if other = name then none
      else table.find? other := by
  induction table with
  | nil => simp [erase, find?]
  | cons entry rest inductionHypothesis =>
      obtain ⟨key, value⟩ := entry
      rw [erase] at inductionHypothesis
      by_cases erased : key = name
      · by_cases same : other = name
        · simpa [erase, erased, same] using inductionHypothesis
        · simpa [erase, find?, erased, same, Ne.symm same]
            using inductionHypothesis
      · by_cases found : key = other
        · subst found
          simp [erase, find?, erased]
        · simpa [erase, find?, erased, found] using inductionHypothesis

end Table

/-! ## Paths -/

/-- The definition of one name makes use of the other name. -/
def Leads (uses : Definition → List Text) (table : Table Definition)
    (earlier later : Text) : Prop :=
  ∃ definition, table.find? earlier = some definition ∧ later ∈ uses definition

namespace Reachability

variable {remaining table : Table Definition} {reached pending : List Text}
  {name : Text}

/-! One step of a visit. -/

theorem visit_of_seen (seen : reached.contains name) :
    visit remaining reached (name :: pending) =
      visit remaining reached pending := by
  rw [visit, if_pos seen]

theorem visit_of_absent (unseen : ¬reached.contains name)
    (absent : remaining.find? name = none) :
    visit remaining reached (name :: pending) = visit remaining
      (name :: reached) pending := by
  rw [visit, if_neg unseen]
  split
  · rfl
  · next definition found =>
    rw [absent] at found
    cases found

theorem visit_of_found {definition : Definition}
    (unseen : ¬reached.contains name)
    (found : remaining.find? name = some definition) :
    visit remaining reached (name :: pending) =
      visit (remaining.erase name) (name :: reached)
        (definition.freeNames ++ pending) := by
  rw [visit, if_neg unseen]
  split
  · next absent =>
    rw [found] at absent
    cases absent
  · next other otherFound =>
    obtain rfl := Option.some.inj (found.symm.trans otherFound)
    rfl

/-- What holds of the first names and passes from a name to those that its
definition mentions holds of all visited names. -/
theorem visit_induction (holds : Text → Prop)
    (reachedHold : ∀ name ∈ reached, holds name)
    (pendingHold : ∀ name ∈ pending, holds name)
    (step : ∀ name definition, holds name →
      remaining.find? name = some definition →
      ∀ other ∈ definition.freeNames, holds other) :
    ∀ name ∈ visit remaining reached pending, holds name := by
  induction remaining, reached, pending using visit.induct with
  | case1 remaining reached =>
      rw [visit]
      exact reachedHold
  | case2 remaining reached name pending seen inductionHypothesis =>
      rw [visit_of_seen seen]
      exact inductionHypothesis reachedHold
        (List.forall_mem_cons.mp pendingHold).2 step
  | case3 remaining reached name pending unseen absent inductionHypothesis =>
      obtain ⟨head, tail⟩ := List.forall_mem_cons.mp pendingHold
      rw [visit_of_absent unseen absent]
      exact inductionHypothesis (List.forall_mem_cons.mpr ⟨head, reachedHold⟩)
        tail step
  | case4 remaining reached name pending unseen definition found
      inductionHypothesis =>
      obtain ⟨head, tail⟩ := List.forall_mem_cons.mp pendingHold
      rw [visit_of_found unseen found]
      apply inductionHypothesis (List.forall_mem_cons.mpr ⟨head, reachedHold⟩)
      · exact List.forall_mem_append.mpr ⟨step name definition head found, tail⟩
      · intro earlier other earlierHolds otherFound
        rw [Table.find?_erase] at otherFound
        split at otherFound
        · cases otherFound
        · exact step earlier other earlierHolds otherFound

/-- What a visit has left to do: the definitions of reached names are gone from
the table, and what they mention is reached or pending. -/
structure Underway (table remaining : Table Definition)
    (reached pending : List Text) : Prop where
  unvisited : ∀ name ∉ reached, remaining.find? name = table.find? name
  closed : ∀ name ∈ reached, ∀ definition, table.find? name = some definition →
    ∀ other ∈ definition.freeNames, other ∈ reached ∨ other ∈ pending

/-- Names are not lost when the first of the pending names is reached. -/
theorem reached_or_pending {other : Text} {later waiting : List Text}
    (first : name ∈ reached ∨ name ∈ other :: pending) (grown : reached ⊆ later)
    (here : other ∈ later) (kept : pending ⊆ waiting) :
    name ∈ later ∨ name ∈ waiting := by
  rcases first with visited | next
  · exact .inl (grown visited)
  · rcases List.mem_cons.mp next with rfl | pends
    · exact .inl here
    · exact .inr (kept pends)

/-- A visit reaches the first names. -/
theorem mem_visit (first : name ∈ reached ∨ name ∈ pending) :
    name ∈ visit remaining reached pending := by
  induction remaining, reached, pending using visit.induct with
  | case1 remaining reached =>
      rw [visit]
      exact first.resolve_right List.not_mem_nil
  | case2 remaining reached other pending seen inductionHypothesis =>
      rw [visit_of_seen seen]
      exact inductionHypothesis (reached_or_pending first (List.Subset.refl _)
        (List.contains_iff_mem.mp seen) (List.Subset.refl _))
  | case3 remaining reached other pending unseen absent inductionHypothesis =>
      rw [visit_of_absent unseen absent]
      exact inductionHypothesis
        (reached_or_pending first (List.subset_cons_self _ _)
        List.mem_cons_self (List.Subset.refl _))
  | case4 remaining reached other pending unseen definition found
      inductionHypothesis =>
      rw [visit_of_found unseen found]
      exact inductionHypothesis
        (reached_or_pending first (List.subset_cons_self _ _)
        List.mem_cons_self (List.subset_append_right _ _))

namespace Underway

theorem start (table : Table Definition) (pending : List Text) :
    Underway table table [] pending where
  unvisited _ _ := rfl
  closed _ member := absurd member List.not_mem_nil

theorem skip (underway : Underway table remaining reached (name :: pending))
    (seen : name ∈ reached) :
    Underway table remaining reached pending where
  unvisited := underway.unvisited
  closed earlier inside definition found other mentioned :=
    reached_or_pending
      (underway.closed earlier inside definition found other mentioned)
      (List.Subset.refl _) seen (List.Subset.refl _)

/-- The definition of the first name, if there is one, leaves the table, and
what it mentions is waiting from then on. -/
theorem advance (underway : Underway table remaining reached (name :: pending))
    (unseen : name ∉ reached) {later : Table Definition} {mentions : List Text}
    (removed : ∀ other ≠ name, later.find? other = remaining.find? other)
    (waiting : ∀ definition, remaining.find? name = some definition →
      definition.freeNames ⊆ mentions) :
    Underway table later (name :: reached) (mentions ++ pending) where
  unvisited other outside := by
    obtain ⟨different, unvisited⟩ := not_or.mp (mt List.mem_cons.mpr outside)
    rw [removed other different, underway.unvisited other unvisited]
  closed earlier inside definition found other mentioned := by
    rcases List.mem_cons.mp inside with rfl | visited
    · rw [← underway.unvisited earlier unseen] at found
      exact .inr (List.mem_append_left _ (waiting definition found mentioned))
    · exact reached_or_pending
        (underway.closed earlier visited definition found other mentioned)
        (List.subset_cons_self _ _) List.mem_cons_self
          (List.subset_append_right _ _)

/-- What the definitions of visited names mention is visited. -/
theorem visit_closed (underway : Underway table remaining reached pending) :
    ∀ name ∈ visit remaining reached pending, ∀ definition,
      table.find? name = some definition →
      ∀ other ∈ definition.freeNames,
        other ∈ visit remaining reached pending := by
  induction remaining, reached, pending using visit.induct with
  | case1 remaining reached =>
      rw [visit]
      intro name member definition found other mentioned
      exact (underway.closed name member definition found other
        mentioned).resolve_right List.not_mem_nil
  | case2 remaining reached name pending seen inductionHypothesis =>
      rw [visit_of_seen seen]
      exact inductionHypothesis (underway.skip (List.contains_iff_mem.mp seen))
  | case3 remaining reached name pending unseen absent inductionHypothesis =>
      rw [visit_of_absent unseen absent]
      apply inductionHypothesis
      have nothing : ∀ definition, remaining.find? name = some definition →
          definition.freeNames ⊆ [] := by
        intro definition found
        rw [absent] at found
        cases found
      exact underway.advance (by simpa using unseen) (fun _ _ => rfl) nothing
  | case4 remaining reached name pending unseen definition found
      inductionHypothesis =>
      rw [visit_of_found unseen found]
      apply inductionHypothesis
      apply underway.advance (by simpa using unseen)
      · intro other different
        rw [Table.find?_erase, if_neg different]
      · intro other otherFound
        obtain rfl := Option.some.inj (found.symm.trans otherFound)
        exact List.Subset.refl _

end Underway

/-- The names that assertions depend on are those that paths lead to. -/
theorem mem_reachedNames {assertions : List Term}
    {definitions : List Definition} :
    name ∈ reachedNames assertions definitions ↔
      ∃ assertion ∈ assertions, ∃ first ∈ assertion.freeNames,
        ReflTransGen (Leads Definition.freeNames (definitionTable definitions))
          first name := by
  constructor
  · apply visit_induction fun name =>
      ∃ assertion ∈ assertions, ∃ first ∈ assertion.freeNames,
      ReflTransGen (Leads Definition.freeNames (definitionTable definitions))
        first name
    · exact fun _ member => absurd member List.not_mem_nil
    · intro first member
      obtain ⟨assertion, inside, free⟩ := List.mem_flatMap.mp member
      exact ⟨assertion, inside, first, free, .refl⟩
    · rintro name definition ⟨assertion, inside, first, free,
        path⟩ found other mentioned
      exact ⟨assertion, inside, first, free,
        path.tail ⟨definition, found, mentioned⟩⟩
  · rintro ⟨assertion, inside, first, free, path⟩
    induction path with
    | refl =>
      exact mem_visit (.inr (List.mem_flatMap.mpr ⟨assertion, inside, free⟩))
    | tail _ step inductionHypothesis =>
        obtain ⟨definition, found, mentioned⟩ := step
        exact (Underway.start _ _).visit_closed _ inductionHypothesis definition
          found _ mentioned

end Reachability

/-! ## Circular definitions -/

/-- The name of one definition is free in the body of another and no
parameter. -/
def Mentions (definitions : List Definition)
    (earlier later : Definition) : Prop :=
  earlier ∈ definitions ∧ later ∈ definitions ∧ later.name ∈ earlier.freeNames

/-- No definition leads back to itself through the definitions. -/
def Acyclic (definitions : List Definition) : Prop :=
  ∀ definition, ¬TransGen (Mentions definitions) definition definition

/-- Some path from one of the names leads into a cycle. -/
def LeadsIntoCycle (uses : Definition → List Text) (table : Table Definition)
    (first : Text) : Prop :=
  ∃ name, ReflTransGen (Leads uses table) first name ∧
    TransGen (Leads uses table) name name

namespace Obligation

variable {formula : Formula} {model : Model} {definition : Definition}
  {name : Text}

/-- All definitions of a pair by their names. -/
abbrev table (formula : Formula) (model : Model) : Table Definition :=
  definitionTable (formula.definitions ++ model.definitions)

theorem mem_reached :
    name ∈ reached formula model ↔
      ∃ assertion ∈ formula.assertions, ∃ first ∈ assertion.freeNames,
        ReflTransGen (Leads Definition.freeNames (table formula model)) first
          name := by
  have same : Leads Definition.freeNames
      (definitionTable (definitionsInEffect formula model)) =
      Leads Definition.freeNames (table formula model) := by
    funext earlier later
    simp only [Leads, definitionsInEffect,
      find?_definitionTable_effectiveDefinitions]
  rw [reached, Reachability.mem_reachedNames, same]

theorem mem_kept :
    definition ∈ kept formula model ↔
      (table formula model).find? definition.name = some definition ∧
        definition.name ∈ reached formula model := by
  rw [kept, Reachability.keptDefinitions, List.mem_filter, definitionsInEffect,
    mem_effectiveDefinitions, List.contains_iff_mem]

/-- The reached names are closed under the steps of the graph. -/
theorem reached_step {other : Text} (member : name ∈ reached formula model)
    (step : Leads Definition.freeNames (table formula model) name other) :
    other ∈ reached formula model := by
  obtain ⟨assertion, inside, first, free, path⟩ := mem_reached.mp member
  exact mem_reached.mpr ⟨assertion, inside, first, free, path.tail step⟩

/-- A path between reached names is one between their definitions. -/
private theorem mentions_of_leads {first last : Text} {final : Definition}
    (path : TransGen (Leads Definition.freeNames (table formula model))
      first last)
    (member : first ∈ reached formula model)
    (found : (table formula model).find? last = some final) :
    ∃ start, (table formula model).find? first = some start ∧
      TransGen (Mentions (kept formula model)) start final := by
  have named (name : Text) (definition : Definition)
      (found : (table formula model).find? name = some definition) :
        definition.name = name :=
    (definition_of_find? found).2
  have inside (name : Text) (definition : Definition)
      (member : name ∈ reached formula model)
      (found : (table formula model).find? name = some definition) :
      definition ∈ kept formula model := by
    obtain rfl := named name definition found
    exact mem_kept.mpr ⟨found, member⟩
  have mentions (name other : Text) (definition another : Definition)
      (member : name ∈ reached formula model)
      (step : other ∈ definition.freeNames)
      (found : (table formula model).find? name = some definition)
      (otherFound : (table formula model).find? other = some another) :
      Mentions (kept formula model) definition another := by
    refine ⟨inside name definition member found,
      inside other another (reached_step member ⟨definition, found, step⟩)
        otherFound, ?_⟩
    rwa [named other another otherFound]
  induction path using TransGen.head_induction_on with
  | single step =>
      obtain ⟨definition, startFound, mentioned⟩ := step
      exact ⟨definition, startFound,
        .single (mentions _ _ _ _ member mentioned startFound found)⟩
  | head step _ inductionHypothesis =>
      obtain ⟨next, nextFound, rest⟩ :=
        inductionHypothesis (reached_step member step)
      obtain ⟨definition, startFound, mentioned⟩ := step
      exact ⟨definition, startFound,
        .head (mentions _ _ _ _ member mentioned startFound nextFound) rest⟩

/-- The kept definitions are circular if and only if a path from some name in an
assertion leads into a cycle. -/
theorem acyclic_kept_iff :
    Acyclic (kept formula model) ↔
      ∀ assertion ∈ formula.assertions, ∀ first ∈ assertion.freeNames,
        ¬LeadsIntoCycle Definition.freeNames (table formula model) first := by
  constructor
  · rintro acyclic assertion inside first free ⟨name, path, cycle⟩
    have member : name ∈ reached formula model :=
      mem_reached.mpr ⟨assertion, inside, first, free, path⟩
    obtain ⟨_, ⟨definition, found, _⟩, _⟩ := TransGen.head'_iff.mp cycle
    obtain ⟨start, startFound, circular⟩ := mentions_of_leads cycle member found
    obtain rfl := Option.some.inj (found.symm.trans startFound)
    exact acyclic definition circular
  · intro outside definition circular
    obtain ⟨_, ⟨member, _, _⟩, _⟩ := TransGen.head'_iff.mp circular
    obtain ⟨assertion, inside, first, free, path⟩ :=
      mem_reached.mp (mem_kept.mp member).2
    refine outside assertion inside first free ⟨definition.name, path, ?_⟩
    apply circular.lift Definition.name
    rintro earlier later ⟨earlierKept, _, mentioned⟩
    exact ⟨earlier, (mem_kept.mp earlierKept).1, mentioned⟩

end Obligation

end ModelAudit
