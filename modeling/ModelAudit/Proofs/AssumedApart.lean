import Mathlib.Data.Multiset.Basic
import ModelAudit.Proofs.ClosedLemma
import ModelAudit.Proofs.UniverseAssumption
import ModelAudit.Solver

/-!
# Constants assumed apart

A lemma and the questions to a solver both assume that the constants which a
model declares for one sort are apart. The lemma assumes it of the constants
that the assertions depend on, the questions of all of them.
-/

namespace ModelAudit

/-! ## Groups of some of the names -/

namespace Universe

variable {declarations : List Declaration} {keep : Text → Bool} {sort : SmtSort}
  {names : List Text}

/-- The names in each group that are to be kept; groups of one name are left
out. -/
def restrict (keep : Text → Bool) (groups : List (SmtSort × List Text)) :
    List (SmtSort × List Text) :=
  (groups.map fun (sort, names) => (sort, names.filter keep)).filter
    fun (_, names) => 1 < names.length

theorem namesOfSort_filter :
    namesOfSort (declarations.filter fun declaration => keep declaration.name)
        sort =
      (namesOfSort declarations sort).filter keep := by
  rw [namesOfSort, namesOfSort, List.filter_map, List.filter_filter,
    List.filter_filter]
  congr 2
  funext declaration
  exact Bool.and_comm _ _

/-- What is left of the groups are the names of a sort that are kept, provided
that there are several. -/
theorem mem_restrict :
    (sort, names) ∈ restrict keep (Universe.groups declarations) ↔
      names = (namesOfSort declarations sort).filter keep ∧
      1 < names.length := by
  rw [restrict, List.mem_filter, List.mem_map, decide_eq_true_eq]
  constructor
  · rintro ⟨⟨⟨other, all⟩, member, same⟩, several⟩
    obtain ⟨rfl, rfl⟩ := Prod.mk.inj same
    obtain ⟨rfl, _⟩ := mem_groups.mp member
    exact ⟨rfl, several⟩
  · rintro ⟨rfl, several⟩
    have more : 1 < (namesOfSort declarations sort).length :=
      several.trans_le (List.length_filter_le _ _)
    exact ⟨⟨(sort, namesOfSort declarations sort), mem_groups.mpr ⟨rfl, more⟩,
      rfl⟩, several⟩

theorem nodup_restrict :
    (restrict keep (Universe.groups declarations)).Nodup := by
  have sorts : ((Universe.groups declarations).map fun (sort, names) =>
      (sort, names.filter keep)).map Prod.fst =
        (Universe.groups declarations).map Prod.fst := by
    rw [List.map_map]
    rfl
  refine List.Nodup.filter _ (List.Nodup.of_map Prod.fst ?_)
  rw [sorts]
  exact nodup_map_fst_groups

/-- Grouping some of the constants makes the groups of those among all
constants, perhaps in another order. -/
theorem groups_filter_perm :
    (Universe.groups
        (declarations.filter fun declaration => keep declaration.name)).Perm
      (restrict keep (Universe.groups declarations)) := by
  have nodup : (Universe.groups (declarations.filter fun declaration =>
      keep declaration.name)).Nodup :=
    List.Nodup.of_map Prod.fst nodup_map_fst_groups
  refine (List.perm_ext_iff_of_nodup nodup nodup_restrict).mpr
    fun ⟨sort, names⟩ => ?_
  rw [mem_groups, mem_restrict, namesOfSort_filter]

theorem restrict_of_forall {groups : List (SmtSort × List Text)}
    (several : ∀ group ∈ groups, 1 < group.snd.length)
    (kept : ∀ group ∈ groups, ∀ name ∈ group.snd, keep name = true) :
    restrict keep groups = groups := by
  have unchanged :
      (groups.map fun (sort, names) => (sort, names.filter keep)) = groups := by
    refine (List.map_congr_left fun group member => ?_).trans
      (List.map_id groups)
    exact Prod.ext rfl (List.filter_eq_self.mpr (kept group member))
  rw [restrict, unchanged]
  exact List.filter_eq_self.mpr fun group member =>
    decide_eq_true (several group member)

end Universe

/-- The same groups up to the order of the groups and of the names in a
group. -/
def SameGroups (groups others : List (List Text)) : Prop :=
  (groups.map Multiset.ofList).Perm (others.map Multiset.ofList)

theorem SameGroups.exists_mem {groups others : List (List Text)}
    {names : List Text} (same : SameGroups groups others)
    (member : names ∈ others) :
    ∃ found ∈ groups, found.Perm names := by
  have inside : Multiset.ofList names ∈ groups.map Multiset.ofList :=
    same.mem_iff.mpr (List.mem_map_of_mem member)
  obtain ⟨found, foundMember, equal⟩ := List.mem_map.mp inside
  exact ⟨found, foundMember, Multiset.coe_eq_coe.mp equal⟩

namespace Obligation

open Inquiry (assumedApart)

variable {operators : OperatorTable} {pair : Session.Pair}
  {obligation : Obligation}

/-- What a lemma lists as distinct are the constants among those which the
questions take to be apart that the assertions depend on. -/
theorem Assembled.distinct_perm
    (assembled : Assembled operators pair obligation) :
    obligation.distinct.Perm
      ((Universe.restrict
        (fun name => (reached pair.formula pair.model).contains name)
        (assumedApart pair)).map fun (_, names) =>
          names.map Identifier.escape) := by
  rw [assembled.distinct, declaredUniverse, assumedApart]
  exact Universe.groups_filter_perm.map _

/-- No name is listed as distinct that the assertions do not depend on. -/
theorem dependsOn_of_mem_distinct
    (assembled : Assembled operators pair obligation) {identifiers : List Text}
    {name : Text} (listed : identifiers ∈ obligation.distinct)
    (member : Identifier.escape name ∈ identifiers) :
    pair.DependsOn name := by
  obtain ⟨sort, rfl, _⟩ := assembled.mem_distinct.mp listed
  obtain ⟨other, inside, same⟩ := List.mem_map.mp member
  obtain rfl := Identifier.escape_injective same
  obtain ⟨constant, declared, _, rfl⟩ := mem_listedNames.mp inside
  have used := (List.mem_filter.mp (List.mem_filter.mp declared).1).2
  exact mem_reached_iff_dependsOn.mp (List.contains_iff_mem.mp used)

/-- A lemma and the questions to a solver assume the same constants to be apart
if and only if the assertions depend on all of them. -/
theorem distinct_sameGroups_iff
    (assembled : ofPair operators pair = .ok obligation) :
    (obligation.distinct.Perm
        ((Universe.restrict
          (fun name => (reached pair.formula pair.model).contains name)
          (assumedApart pair)).map fun (_, names) =>
            names.map Identifier.escape)) ∧
      (SameGroups obligation.distinct
          ((assumedApart pair).map fun (_, names) =>
            names.map Identifier.escape) ↔
        ∀ group ∈ assumedApart pair, ∀ name ∈ group.snd,
          pair.DependsOn name) := by
  have parts := assembled_of_ofPair assembled
  refine ⟨parts.distinct_perm, fun same group member name inside => ?_,
    fun depends => ?_⟩
  · obtain ⟨identifiers, listed, shuffled⟩ :=
      same.exists_mem (List.mem_map_of_mem member)
    exact dependsOn_of_mem_distinct parts listed
      (shuffled.mem_iff.mpr (List.mem_map_of_mem inside))
  · have whole :
        Universe.restrict
          (fun name => (reached pair.formula pair.model).contains name)
        (assumedApart pair) = assumedApart pair := by
      refine Universe.restrict_of_forall
        (fun group member => (Universe.mem_groups.mp member).2) ?_
      intro group member name inside
      exact List.contains_iff_mem.mpr
        (mem_reached_iff_dependsOn.mpr (depends group member name inside))
    have perm := parts.distinct_perm
    rw [whole] at perm
    exact perm.map _

/-- The formula `false`, and a model that declares three truth values. -/
def unusedTruthValues : Session.Pair where
  formula := ⟨[.literal (.bool false)], []⟩
  model :=
    ⟨[], [⟨"p", [], .bool, .declared⟩, ⟨"q", [], .bool, .declared⟩,
      ⟨"r", [], .bool, .declared⟩]⟩
  symbols :=
    ⟨[("p", ⟨"p", [], .bool, .declared⟩), ("q", ⟨"q", [], .bool, .declared⟩),
      ("r", ⟨"r", [], .bool, .declared⟩)], [], []⟩

/-- The lemma of the pair assumes nothing and its goal is false, but a solver is
asked under the assumption that three truth values are apart. -/
theorem unusedTruthValues_not_sameGroups :
    Session.readPair "(assert false)"
          "(declare-const p Bool)(declare-const q Bool)(declare-const r Bool)" =
        .ok unusedTruthValues ∧
      assumedApart unusedTruthValues =
        [(.bool, (["p", "q", "r"] : List Text))] ∧
      ∃ obligation, ofPair .default unusedTruthValues = .ok obligation ∧
        obligation.assumptions = [] ∧ obligation.goal.text = "False" ∧
        ¬SameGroups obligation.distinct
          ((assumedApart unusedTruthValues).map fun (_, names) =>
            names.map Identifier.escape) := by
  have read : Session.readPair "(assert false)"
      "(declare-const p Bool)(declare-const q Bool)(declare-const r Bool)" =
        .ok unusedTruthValues :=
    Outcome.toOption_eq_some_iff.mp (by decide +kernel)
  have nothing :
      reached unusedTruthValues.formula unusedTruthValues.model = [] := by
    have first :
        unusedTruthValues.formula.assertions.flatMap Term.freeNames = [] := by
      decide +kernel
    rw [reached, Reachability.reachedNames, first, Reachability.visit]
  have lemmaParts : (ofPair .default unusedTruthValues).toOption.map
      (fun obligation => (obligation.assumptions, obligation.goal.text)) =
        some ([], ("False" : Text)) := by
    rw [ofPair, nothing]
    decide +kernel
  obtain ⟨obligation, found, parts⟩ := Option.map_eq_some_iff.mp lemmaParts
  have assembled := Outcome.toOption_eq_some_iff.mp found
  obtain ⟨assumptions, goal⟩ := Prod.mk.inj parts
  refine ⟨read, by decide +kernel, obligation, assembled, assumptions, goal,
    fun same => ?_⟩
  have depends := (distinct_sameGroups_iff assembled).2.mp same
    (SmtSort.bool, ["p", "q", "r"]) (by decide +kernel) "p" (by decide +kernel)
  rw [← mem_reached_iff_dependsOn, nothing] at depends
  cases depends

end Obligation

end ModelAudit
