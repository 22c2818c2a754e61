import Mathlib.Data.Finset.Card
import Mathlib.Order.Bounds.Defs
import ModelAudit.Proofs.Dependency

/-!
# The least set of reached names

Looking for the names that assertions depend on is a loop over a list of names
that still have to be looked at. The order in which the names of a definition
enter the list is open. In whatever order they do, the loop ends, and it ends
with the least set that holds the names of the assertions and is closed under
the definitions.
-/

namespace ModelAudit

open Relation

/-- The same names, in any order and any number of times. -/
def SameNames (left right : List Text) : Prop :=
  ∀ name, name ∈ left ↔ name ∈ right

namespace Reachability

/-- The names that are reached, and those still to be looked at, the next one
first. -/
structure Worklist where
  reached : List Text
  pending : List Text

namespace Worklist

/-- One turn of the loop takes the next name and puts what its definition
mentions, in any order, before the other names. -/
inductive Step (table : Table Definition) : Worklist → Worklist → Prop
  | seen {reached pending : List Text} {name : Text} :
      name ∈ reached → Step table ⟨reached, name :: pending⟩ ⟨reached, pending⟩
  | absent {reached pending : List Text} {name : Text} :
      name ∉ reached → table.find? name = none →
      Step table ⟨reached, name :: pending⟩ ⟨name :: reached, pending⟩
  | found {reached pending pushed : List Text} {name : Text}
      {definition : Definition} :
      name ∉ reached → table.find? name = some definition →
      SameNames pushed definition.freeNames →
      Step table ⟨reached, name :: pending⟩ ⟨name :: reached, pushed ++ pending⟩

variable {table : Table Definition} {worklist later final : Worklist}
  {first : List Text}

/-! ## The end of the loop -/

/-- The loop stops only when no name is left. -/
theorem pending_eq_nil (stopped : ∀ later, ¬Step table worklist later) :
    worklist.pending = [] := by
  obtain ⟨reached, pending⟩ := worklist
  cases pending with
  | nil => rfl
  | cons name pending =>
      exfalso
      by_cases seen : name ∈ reached
      · exact stopped _ (.seen seen)
      cases found : table.find? name with
      | none => exact stopped _ (.absent seen found)
      | some definition => exact stopped _ (.found seen found fun _ => Iff.rfl)

/-- The names with a definition that are not reached yet. -/
def unreached (table : Table Definition) (worklist : Worklist) : Finset Text :=
  table.names.toFinset \ worklist.reached.toFinset

theorem unreached_subset (table : Table Definition) (name : Text)
    (reached pending others : List Text) :
    unreached table ⟨name :: reached, others⟩ ⊆ unreached table
      ⟨reached, pending⟩ := by
  intro other member
  simp only [unreached, Finset.mem_sdiff, List.mem_toFinset, List.mem_cons,
    not_or] at member ⊢
  exact ⟨member.1, member.2.2⟩

/-- A turn reaches one more definition, or it leaves fewer names to be looked
at. -/
theorem Step.decreases (step : Step table worklist later) :
    Prod.Lex (· < ·) (· < ·) ((unreached table later).card,
      later.pending.length)
      ((unreached table worklist).card, worklist.pending.length) := by
  cases step with
  | seen _ => exact .right _ (Nat.lt_succ_self _)
  | @absent reached pending name _ _ =>
      rcases (Finset.card_le_card
        (unreached_subset table name reached (name :: pending)
        pending)).lt_or_eq with fewer | same
      · exact .left _ _ fewer
      · rw [same]
        exact .right _ (Nat.lt_succ_self _)
  | @found reached pending pushed name definition unseen found _ =>
      refine .left _ _
        (Finset.card_lt_card ⟨unreached_subset table name reached _ _, ?_⟩)
      intro subset
      have defined : name ∈ table.names :=
        List.mem_map_of_mem (Table.mem_of_find?_eq_some found)
      have member : name ∈ unreached table ⟨reached, name :: pending⟩ := by
        simpa [unreached] using ⟨defined, unseen⟩
      simpa [unreached] using subset member

/-- No loop runs for ever. -/
theorem wellFounded_step (table : Table Definition) :
    WellFounded fun later worklist => Step table worklist later :=
  Subrelation.wf (fun step => Step.decreases step)
    (InvImage.wf
      (fun worklist : Worklist => ((unreached table worklist).card,
        worklist.pending.length))
      (Prod.lex Nat.lt_wfRel Nat.lt_wfRel).wf)

/-! ## The names it ends with -/

/-- The name is reached or still to be looked at. -/
def Holds (worklist : Worklist) (name : Text) : Prop :=
  name ∈ worklist.reached ∨ name ∈ worklist.pending

/-- A turn loses no name: what was reached or waiting still is. -/
theorem Step.holds (step : Step table worklist later) {name : Text}
    (holds : worklist.Holds name) :
    later.Holds name := by
  unfold Holds at holds ⊢
  cases step with
  | seen visited =>
      rcases holds with before | waiting
      · exact .inl before
      · rcases List.mem_cons.mp waiting with rfl | behind
        · exact .inl visited
        · exact .inr behind
  | absent _ _ | found _ _ _ =>
      simp only [List.mem_cons, List.mem_append] at holds ⊢
      tauto

/-- A turn adds only names that the definition of a name mentions. -/
theorem Step.holds_cases (step : Step table worklist later) {name : Text}
    (holds : later.Holds name) :
    worklist.Holds name ∨
      ∃ earlier, worklist.Holds earlier ∧
        Leads Definition.freeNames table earlier name := by
  unfold Holds at holds ⊢
  cases step with
  | seen _ | absent _ _ =>
      simp only [List.mem_cons] at holds ⊢
      tauto
  | @found reached pending pushed taken definition _ found same =>
      simp only [List.mem_cons, List.mem_append] at holds ⊢
      rcases holds with (rfl | visited) | mentioned | waiting
      · exact .inl (.inr (.inl rfl))
      · exact .inl (.inl visited)
      · exact .inr ⟨taken, .inr (.inl rfl), definition, found,
          (same name).mp mentioned⟩
      · exact .inl (.inr (.inr waiting))

/-- What the definition of a name mentions is held once the name is reached. -/
theorem Step.reached_cases (step : Step table worklist later) {name : Text}
    (visited : name ∈ later.reached) :
    name ∈ worklist.reached ∨
      ∀ definition, table.find? name = some definition →
        ∀ other ∈ definition.freeNames, later.Holds other := by
  cases step with
  | seen _ => exact .inl visited
  | absent _ absent =>
      rcases List.mem_cons.mp visited with rfl | before
      · refine .inr fun definition found => ?_
        rw [absent] at found
        cases found
      · exact .inl before
  | found _ found same =>
      rcases List.mem_cons.mp visited with rfl | before
      · refine .inr fun definition otherFound other mentioned => ?_
        obtain rfl := Option.some.inj (found.symm.trans otherFound)
        exact .inr (List.mem_append_left _ ((same other).mpr mentioned))
      · exact .inl before

/-- What all turns of the loop keep. -/
structure Invariant (table : Table Definition) (first : List Text)
    (worklist : Worklist) :
    Prop where
  begins : ∀ name ∈ first, worklist.Holds name
  closed : ∀ name ∈ worklist.reached, ∀ definition,
      table.find? name = some definition →
    ∀ other ∈ definition.freeNames, worklist.Holds other
  needed : ∀ name, worklist.Holds name →
    ∃ start ∈ first, ReflTransGen (Leads Definition.freeNames table) start name

theorem Invariant.start (table : Table Definition) (first : List Text) :
    Invariant table first ⟨[], first⟩ where
  begins _ member := .inr member
  closed _ visited := absurd visited List.not_mem_nil
  needed name holds := ⟨name, holds.resolve_left List.not_mem_nil, .refl⟩

/-- Every turn keeps the invariant. -/
theorem Invariant.step (invariant : Invariant table first worklist)
    (step : Step table worklist later) : Invariant table first later where
  begins name member := step.holds (invariant.begins name member)
  closed name visited definition found other mentioned := by
    rcases step.reached_cases visited with before | closed
    · exact step.holds
        (invariant.closed name before definition found other mentioned)
    · exact closed definition found other mentioned
  needed name holds := by
    rcases step.holds_cases holds with before | ⟨earlier, before, leads⟩
    · exact invariant.needed name before
    · obtain ⟨start, member, path⟩ := invariant.needed earlier before
      exact ⟨start, member, path.tail leads⟩

theorem Invariant.run (invariant : Invariant table first worklist)
    (run : ReflTransGen (Step table) worklist final) :
    Invariant table first final := by
  induction run with
  | refl => exact invariant
  | tail _ step inductionHypothesis => exact inductionHypothesis.step step

/-- However the loop runs, it ends with the names that paths from the first ones
lead to. -/
theorem mem_reached_iff (run : ReflTransGen (Step table) ⟨[], first⟩ final)
    (done : final.pending = []) {name : Text} :
    name ∈ final.reached ↔
      ∃ start ∈ first,
        ReflTransGen (Leads Definition.freeNames table) start name := by
  have invariant := (Invariant.start table first).run run
  have visited {name : Text} (holds : final.Holds name) :
      name ∈ final.reached := by
    rw [Holds, done] at holds
    exact holds.resolve_right List.not_mem_nil
  constructor
  · exact fun member => invariant.needed name (.inl member)
  · rintro ⟨start, member, path⟩
    induction path with
    | refl => exact visited (invariant.begins start member)
    | tail _ leads inductionHypothesis =>
        obtain ⟨definition, found, mentioned⟩ := leads
        exact visited
          (invariant.closed _ inductionHypothesis definition found _ mentioned)

end Worklist

/-! ## The reached names -/

section ReachedNames

variable {assertions : List Term} {definitions : List Definition}

/-- Of several runs of the loop, `visit` is the one that takes the names in the
order in which they stand. -/
theorem visit_run {table remaining : Table Definition}
    {reached pending : List Text}
    (unvisited : ∀ name ∉ reached, remaining.find? name = table.find? name) :
    ReflTransGen (Worklist.Step table) ⟨reached, pending⟩
      ⟨visit remaining reached pending, []⟩ := by
  induction remaining, reached, pending using visit.induct with
  | case1 remaining reached =>
      rw [visit]
  | case2 remaining reached name pending seen inductionHypothesis =>
      rw [visit_of_seen seen]
      exact .head (.seen (List.contains_iff_mem.mp seen))
        (inductionHypothesis unvisited)
  | case3 remaining reached name pending unseen absent inductionHypothesis =>
      have outside : name ∉ reached := mt List.contains_iff_mem.mpr unseen
      rw [visit_of_absent unseen absent]
      refine .head (.absent outside (unvisited name outside ▸ absent))
        (inductionHypothesis fun other otherOutside => ?_)
      exact unvisited other (mt (List.mem_cons_of_mem name) otherOutside)
  | case4 remaining reached name pending unseen definition found
      inductionHypothesis =>
      have outside : name ∉ reached := mt List.contains_iff_mem.mpr unseen
      rw [visit_of_found unseen found]
      refine .head
        (.found outside (unvisited name outside ▸ found) fun _ => Iff.rfl)
        (inductionHypothesis fun other otherOutside => ?_)
      obtain ⟨different, unreached⟩ :=
        not_or.mp (mt List.mem_cons.mpr otherOutside)
      rw [Table.find?_erase, if_neg different, unvisited other unreached]

/-- The set holds what the assertions mention, and what the definition of each
of its names mentions apart from parameters. -/
structure ClosedUnder (assertions : List Term) (definitions : List Definition)
    (names : Set Text) :
    Prop where
  assertions :
      ∀ assertion ∈ assertions, ∀ name ∈ assertion.freeNames, name ∈ names
  definitions : ∀ definition ∈ definitions, definition.name ∈ names →
    ∀ name ∈ definition.body.freeNames, name ∉ definition.params.map Prod.fst →
      name ∈ names

theorem mem_freeNames {definition : Definition} {name : Text} :
    name ∈ definition.freeNames ↔
      name ∈ definition.body.freeNames ∧
      name ∉ definition.params.map Prod.fst := by
  rw [Definition.freeNames, List.mem_filter, Bool.not_eq_true',
    ← Bool.not_eq_true, List.contains_iff_mem]

/-- Definitions with different names are all in effect. -/
theorem find?_definitionTable_iff
    (different : (definitions.map Definition.name).Nodup)
    {definition : Definition} {name : Text} :
    (definitionTable definitions).find? name = some definition ↔
      definition ∈ definitions ∧ definition.name = name := by
  refine ⟨definition_of_find?, ?_⟩
  rintro ⟨member, rfl⟩
  obtain ⟨other, isLast, named⟩ := exists_isLastIn (List.mem_map_of_mem member)
  have found := isLast.find?
  obtain ⟨inside, _⟩ := definition_of_find? found
  obtain rfl := List.inj_on_of_nodup_map different inside member named
  exact found

/-- The reached names are the least set that holds what the assertions mention
and is closed under definitions. -/
theorem isLeast_reachedNames
    (different : (definitions.map Definition.name).Nodup) :
    IsLeast {names | ClosedUnder assertions definitions names}
      {name | name ∈ reachedNames assertions definitions} := by
  constructor
  · constructor
    · intro assertion member name free
      exact mem_reachedNames.mpr ⟨assertion, member, name, free, .refl⟩
    · intro definition member visited name free noParameter
      obtain ⟨assertion, inside, first, firstFree, path⟩ :=
        mem_reachedNames.mp visited
      have found := (find?_definitionTable_iff different).mpr ⟨member, rfl⟩
      exact mem_reachedNames.mpr ⟨assertion, inside, first, firstFree,
        path.tail ⟨definition, found, mem_freeNames.mpr ⟨free, noParameter⟩⟩⟩
  · intro names closed name visited
    obtain ⟨assertion, inside, first, free, path⟩ := mem_reachedNames.mp visited
    induction path with
    | refl => exact closed.assertions assertion inside first free
    | @tail earlier later before leads inductionHypothesis =>
        obtain ⟨definition, found, mentioned⟩ := leads
        obtain ⟨member, rfl⟩ := (find?_definitionTable_iff different).mp found
        obtain ⟨mentionedInBody, noParameter⟩ := mem_freeNames.mp mentioned
        exact closed.definitions definition member
          (inductionHypothesis
            (mem_reachedNames.mpr ⟨assertion, inside, first, free, before⟩))
          later mentionedInBody noParameter

/-- A loop that starts with the names of the assertions stops with the reached
names. -/
theorem sameNames_of_run {first : List Text} {final : Worklist}
    (start : SameNames first (assertions.flatMap Term.freeNames))
    (run : ReflTransGen (Worklist.Step (definitionTable definitions))
      ⟨[], first⟩ final)
    (done : final.pending = []) :
    SameNames final.reached (reachedNames assertions definitions) := by
  intro name
  rw [Worklist.mem_reached_iff run done, mem_reachedNames]
  constructor
  · rintro ⟨beginning, member, path⟩
    obtain ⟨assertion, inside, free⟩ :=
      List.mem_flatMap.mp ((start beginning).mp member)
    exact ⟨assertion, inside, beginning, free, path⟩
  · rintro ⟨assertion, inside, beginning, free, path⟩
    exact ⟨beginning, (start beginning).mpr
      (List.mem_flatMap.mpr ⟨assertion, inside, free⟩), path⟩

/-- The search for the names that assertions depend on ends in whatever order
names are looked at. It ends with the least set that holds the names of the
assertions and is closed under the definitions, and the definitions kept are
those of reached names, in their order. -/
theorem reachedNames_least (assertions : List Term)
    (different : (definitions.map Definition.name).Nodup) :
    (∀ first, SameNames first (assertions.flatMap Term.freeNames) →
      Acc (fun later worklist => Worklist.Step
        (definitionTable definitions) worklist later)
          ⟨[], first⟩ ∧
        ∀ final, ReflTransGen (Worklist.Step (definitionTable definitions))
            ⟨[], first⟩ final →
          (∀ later, ¬Worklist.Step (definitionTable definitions) final later) →
          final.pending = [] ∧
            SameNames final.reached (reachedNames assertions definitions)) ∧
      ReflTransGen (Worklist.Step (definitionTable definitions))
        ⟨[], assertions.flatMap Term.freeNames⟩
        ⟨reachedNames assertions definitions, []⟩ ∧
      IsLeast {names | ClosedUnder assertions definitions names}
        {name | name ∈ reachedNames assertions definitions} ∧
      (keptDefinitions
        (reachedNames assertions definitions) definitions).Sublist definitions ∧
      ∀ definition, definition ∈ keptDefinitions
          (reachedNames assertions definitions) definitions ↔
        definition ∈ definitions ∧
        definition.name ∈ reachedNames assertions definitions := by
  refine ⟨fun first start => ⟨(Worklist.wellFounded_step _).apply _,
    fun final run stopped => ?_⟩,
    visit_run fun _ _ => rfl, isLeast_reachedNames different,
    List.filter_sublist,
    fun definition => ?_⟩
  · have done := Worklist.pending_eq_nil stopped
    exact ⟨done, sameNames_of_run start run done⟩
  · rw [keptDefinitions, List.mem_filter, List.contains_iff_mem]

def renamed (name original : Text) : Definition :=
  ⟨⟨name, [], .bool, .defined⟩, [], .symbol original .bool⟩

/-- The first two constants are defined by each other, and nothing mentions the
third. -/
def renamedConstants : List Definition :=
  [renamed "x" "y", renamed "y" "x", renamed "z" "x"]

/-- No assertion about the first constant depends on the third. -/
theorem reachedNames_renamedConstants :
    (renamedConstants.map Definition.name).Nodup ∧
      renamed "z" "x" ∉
        keptDefinitions (reachedNames [.symbol "x" .bool] renamedConstants)
          renamedConstants := by
  have different : (renamedConstants.map Definition.name).Nodup := by decide
  obtain ⟨_, _, least, _, kept⟩ :=
    reachedNames_least [.symbol "x" .bool] different
  have closed :
      ClosedUnder [.symbol "x" .bool] renamedConstants {name | name ≠ "z"} := by
    constructor <;> decide
  exact ⟨different, fun member => least.2 closed ((kept _).mp member).2 rfl⟩

end ReachedNames

end Reachability

end ModelAudit
