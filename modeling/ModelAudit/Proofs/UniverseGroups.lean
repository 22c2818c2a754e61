import ModelAudit.Proofs.Tables
import ModelAudit.Universe

/-!
# Groups of constants

Grouping puts all constants of one sort into one group, in their order and with
repetitions, and leaves out the groups of a single constant.
-/

namespace ModelAudit.Universe

variable {groups : List (SmtSort × List Text)} {declarations : List Declaration}
  {sort other : SmtSort} {name : Text} {names : List Text}

def namesOfSort (declarations : List Declaration) (sort : SmtSort) :
    List Text :=
  (declarations.filter fun declaration =>
    declaration.isConstant && declaration.result = sort).map Declaration.name

/-- The names in the group of a sort. -/
def namesIn (groups : List (SmtSort × List Text)) (sort : SmtSort) :
    List Text :=
  match groups with
  | [] => []
  | (other, names) :: rest => if other = sort then names else namesIn rest sort

theorem namesIn_addToGroup :
    namesIn (addToGroup groups sort name) other =
      namesIn groups other ++ if sort = other then [name] else [] := by
  induction groups with
  | nil => by_cases same : sort = other <;> simp [addToGroup, namesIn, same]
  | cons group groups inductionHypothesis =>
      obtain ⟨first, names⟩ := group
      by_cases sameGroup : first = sort
      · subst sameGroup
        by_cases same : first = other <;> simp [addToGroup, namesIn, same]
      · by_cases same : first = other
        · subst same
          simp [addToGroup, namesIn, sameGroup, Ne.symm sameGroup]
        · simp [addToGroup, namesIn, sameGroup, same, inductionHypothesis]

theorem map_fst_addToGroup :
    (addToGroup groups sort name).map Prod.fst =
      if sort ∈ groups.map Prod.fst then groups.map Prod.fst
      else groups.map Prod.fst ++ [sort] := by
  induction groups with
  | nil => rfl
  | cons group groups inductionHypothesis =>
      obtain ⟨first, names⟩ := group
      by_cases same : first = sort
      · simp [addToGroup, same]
      · rw [addToGroup, if_neg same, List.map_cons, inductionHypothesis]
        by_cases member : sort ∈ groups.map Prod.fst
        · rw [if_pos member, if_pos (by simp [member])]
          rfl
        · rw [if_neg member, if_neg (by simpa [Ne.symm same] using member)]
          rfl

/-- Every sort has one group at most, and no group is empty. -/
structure Grouped (groups : List (SmtSort × List Text)) : Prop where
  nodup : (groups.map Prod.fst).Nodup
  nonempty : ∀ group ∈ groups, group.snd ≠ []

/-- Adding a name keeps one group for each sort. -/
theorem Grouped.addToGroup (grouped : Grouped groups) (sort : SmtSort)
    (name : Text) :
    Grouped (addToGroup groups sort name) where
  nodup := by
    rw [map_fst_addToGroup]
    split
    · exact grouped.nodup
    · next absent =>
      refine List.nodup_append.mpr
        ⟨grouped.nodup, List.nodup_singleton sort, ?_⟩
      intro other member added inside same
      obtain rfl := List.mem_singleton.mp inside
      exact absent (same ▸ member)
  nonempty := by
    have nonempty := grouped.nonempty
    clear grouped
    induction groups with
    | nil => simp [Universe.addToGroup]
    | cons group groups inductionHypothesis =>
        obtain ⟨head, tail⟩ := List.forall_mem_cons.mp nonempty
        rw [Universe.addToGroup]
        split
        · exact List.forall_mem_cons.mpr ⟨by simp, tail⟩
        · exact List.forall_mem_cons.mpr ⟨head, inductionHypothesis tail⟩

/-- A group holds all the names of its sort. -/
theorem Grouped.mem_iff (grouped : Grouped groups) :
    (sort, names) ∈ groups ↔ namesIn groups sort = names ∧ names ≠ [] := by
  constructor
  · intro member
    refine ⟨?_, grouped.nonempty _ member⟩
    have nodup := grouped.nodup
    clear grouped
    induction groups with
    | nil => cases member
    | cons group groups inductionHypothesis =>
        obtain ⟨absent, rest⟩ := List.nodup_cons.mp nodup
        rw [namesIn]
        rcases List.mem_cons.mp member with rfl | later
        · rw [if_pos rfl]
        · rw [if_neg, inductionHypothesis later rest]
          rintro rfl
          exact absent (List.mem_map.mpr ⟨_, later, rfl⟩)
  · rintro ⟨rfl, some⟩
    clear grouped
    induction groups with
    | nil => exact absurd rfl some
    | cons group groups inductionHypothesis =>
        rw [namesIn] at some ⊢
        split at some
        · next same =>
          rw [if_pos same]
          exact List.mem_cons.mpr (.inl (by rw [← same]))
        · next different =>
          rw [if_neg different]
          exact List.mem_cons_of_mem _ (inductionHypothesis some)

/-- Grouping keeps one group for each sort, with the names of its constants in
order. -/
private theorem grouped_foldl (constants : List Declaration)
    (grouped : Grouped groups) :
    Grouped (constants.foldl
        (fun groups declaration =>
          addToGroup groups declaration.result declaration.name) groups) ∧
      ∀ sort, namesIn (constants.foldl
          (fun groups declaration =>
            addToGroup groups declaration.result declaration.name) groups)
            sort =
        namesIn groups sort ++
          (constants.filter fun constant => constant.result = sort).map
            Declaration.name := by
  induction constants generalizing groups with
  | nil => exact ⟨grouped, by simp⟩
  | cons constant constants inductionHypothesis =>
      obtain ⟨all, names⟩ :=
        inductionHypothesis (grouped.addToGroup constant.result constant.name)
      refine ⟨all, fun sort => ?_⟩
      rw [List.foldl_cons, names, namesIn_addToGroup, List.append_assoc]
      by_cases same : constant.result = sort
      · simp [same]
      · simp [same]

/-- Every sort has one group at most. -/
theorem nodup_map_fst_groups :
    ((Universe.groups declarations).map Prod.fst).Nodup := by
  have empty : Grouped [] := ⟨List.nodup_nil, by simp⟩
  have grouped :=
    (grouped_foldl (declarations.filter Declaration.isConstant) empty).1
  exact grouped.nodup.sublist (List.filter_sublist.map Prod.fst)

/-- A group holds all constants of its sort, which are more than one. -/
theorem mem_groups :
    (sort, names) ∈ Universe.groups declarations ↔
      names = namesOfSort declarations sort ∧ 1 < names.length := by
  have empty : Grouped [] := ⟨List.nodup_nil, by simp⟩
  obtain ⟨grouped, collected⟩ :=
    grouped_foldl (declarations.filter Declaration.isConstant) empty
  have same : namesOfSort declarations sort =
      ((declarations.filter Declaration.isConstant).filter
        fun constant => constant.result = sort).map Declaration.name := by
    rw [namesOfSort, List.filter_filter]
    simp only [Bool.and_comm]
  rw [Universe.groups, List.mem_filter, grouped.mem_iff, collected, same]
  simp only [namesIn, List.nil_append, decide_eq_true_eq]
  constructor
  · rintro ⟨⟨shape, _⟩, several⟩
    exact ⟨shape.symm, several⟩
  · rintro ⟨shape, several⟩
    refine ⟨⟨shape.symm, ?_⟩, several⟩
    rintro rfl
    exact absurd several (Nat.not_lt_zero _)

end ModelAudit.Universe
