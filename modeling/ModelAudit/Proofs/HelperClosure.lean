import Mathlib.Data.List.Nodup
import Mathlib.Logic.Relation
import ModelAudit.Hol.Helper

/-!
# The closure of helpers

The closure of some helpers holds those that they refer to, directly or not, and
no others. Each of its helpers stands after all that it refers to.
-/

namespace ModelAudit.Helper

open Relation

/-- The first helper refers to the second one. -/
def RefersTo (user used : Helper) : Prop :=
  used ∈ user.dependencies

theorem mem_all (helper : Helper) : helper ∈ all := by
  cases helper <;> decide

theorem nodup_all : all.Nodup := by
  decide

/-- Helpers refer to earlier ones only. -/
theorem pairwise_all : all.Pairwise fun earlier later =>
  ¬earlier.RefersTo later := by
  unfold RefersTo
  decide

theorem not_refersTo_self (helper : Helper) : ¬helper.RefersTo helper := by
  unfold RefersTo
  cases helper <;> decide

/-- The helpers of a list that are given, or that later ones of the answer refer
to. -/
def collect (given order : List Helper) : List Helper :=
  order.foldr (fun helper wanted =>
    if given.contains helper || wanted.any fun later =>
      later.dependencies.contains helper
    then helper :: wanted else wanted) []

/-- One pass from the last helper to the first finds all that are referred
to. -/
theorem closure_eq (given : List Helper) : closure given = collect given all :=
  rfl

variable {given order before after : List Helper} {helper user used : Helper}

/-- The first helper is collected if it is given, or if a later one that is
collected refers to it. -/
theorem mem_collect_cons {first : Helper} :
    helper ∈ collect given (first :: order) ↔
      helper ∈ collect given order ∨
        helper = first ∧
        (first ∈ given ∨
          ∃ later ∈ collect given order, later.RefersTo first) := by
  have step : collect given (first :: order) =
      if given.contains first || (collect given order).any fun later =>
          later.dependencies.contains first
      then first :: collect given order else collect given order := rfl
  rw [step]
  split
  · next wanted =>
    simp only [Bool.or_eq_true, List.contains_iff_mem, List.any_eq_true]
      at wanted
    simp only [List.mem_cons, RefersTo, wanted, and_true, or_comm]
  · next unwanted =>
    simp only [Bool.or_eq_true, List.contains_iff_mem, List.any_eq_true]
      at unwanted
    simp only [RefersTo, unwanted, and_false, or_false]

theorem sublist_collect : (collect given order).Sublist order := by
  induction order with
  | nil => exact .slnil
  | cons first others inductionHypothesis =>
      change (if _ then first :: collect given others
        else collect given others).Sublist _
      split
      · exact inductionHypothesis.cons_cons first
      · exact inductionHypothesis.cons first

theorem mem_collect_append (member : helper ∈ collect given after) :
    helper ∈ collect given (before ++ after) := by
  induction before with
  | nil => exact member
  | cons first others inductionHypothesis =>
    exact mem_collect_cons.mpr (.inl inductionHypothesis)

theorem mem_collect_of_append
    (member : helper ∈ collect given (before ++ after))
    (outside : helper ∉ before) : helper ∈ collect given after := by
  induction before with
  | nil => exact member
  | cons first others inductionHypothesis =>
      rw [List.mem_cons, not_or] at outside
      rcases mem_collect_cons.mp member with inside | ⟨same, _⟩
      · exact inductionHypothesis inside outside.2
      · exact absurd same outside.1

/-- What is collected is given or referred to from there. -/
theorem exists_refersTo_of_mem_collect (member : helper ∈ collect given order) :
    ∃ start ∈ given, ReflTransGen RefersTo start helper := by
  induction order generalizing helper with
  | nil => cases member
  | cons first others inductionHypothesis =>
      rcases mem_collect_cons.mp member
        with inside | ⟨rfl, listed | ⟨user, inside, refers⟩⟩
      · exact inductionHypothesis inside
      · exact ⟨helper, listed, .refl⟩
      · obtain ⟨start, listed, reaches⟩ := inductionHypothesis inside
        exact ⟨start, listed, reaches.tail refers⟩

theorem mem_closure_of_mem (listed : helper ∈ given) :
    helper ∈ closure given := by
  obtain ⟨before, after, split⟩ := List.append_of_mem (mem_all helper)
  rw [closure_eq, split]
  exact mem_collect_append (mem_collect_cons.mpr (.inr ⟨rfl, .inl listed⟩))

/-- The closure holds what its helpers refer to: these stand earlier among all
helpers, so the pass from the end meets them later. -/
theorem mem_closure_of_refersTo (member : user ∈ closure given)
    (refers : user.RefersTo used) :
    used ∈ closure given := by
  obtain ⟨before, after, split⟩ := List.append_of_mem (mem_all used)
  have order := pairwise_all
  rw [closure_eq, split] at member
  rw [closure_eq, split]
  rw [split] at order
  have outside : user ∉ before := fun inside =>
    (List.pairwise_append.mp order).2.2 user inside used
      List.mem_cons_self refers
  have later : user ∈ collect given after := by
    rcases mem_collect_cons.mp (mem_collect_of_append member outside)
      with inside | ⟨same, _⟩
    · exact inside
    · exact absurd (same ▸ refers) (not_refersTo_self used)
  exact mem_collect_append
    (mem_collect_cons.mpr (.inr ⟨rfl, .inr ⟨user, later, refers⟩⟩))

/-- The closure holds the given helpers with all that they refer to, directly or
not. -/
theorem mem_closure :
    helper ∈ closure given ↔
      ∃ start ∈ given, ReflTransGen RefersTo start helper := by
  constructor
  · exact exists_refersTo_of_mem_collect
  · rintro ⟨start, listed, reaches⟩
    induction reaches with
    | refl => exact mem_closure_of_mem listed
    | tail _ refers inductionHypothesis =>
      exact mem_closure_of_refersTo inductionHypothesis refers

theorem nodup_closure (given : List Helper) : (closure given).Nodup :=
  nodup_all.sublist sublist_collect

/-- Each helper of the closure stands after all that it refers to. -/
theorem mem_before_of_refersTo (shape : closure given = before ++ user :: after)
    (refers : user.RefersTo used) : used ∈ before := by
  have member : used ∈ closure given :=
    mem_closure_of_refersTo (by simp [shape]) refers
  have sublist : (closure given).Sublist all := sublist_collect
  have order := pairwise_all.sublist sublist
  rw [shape] at order
  rw [shape] at member
  rcases List.mem_append.mp member with inside | inside
  · exact inside
  · rcases List.mem_cons.mp inside with rfl | later
    · exact absurd refers (not_refersTo_self used)
    · have apart :=
        (List.pairwise_cons.mp (List.pairwise_append.mp order).2.1).1
      exact absurd refers (apart used later)

end ModelAudit.Helper
