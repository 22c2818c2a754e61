import Mathlib.Logic.Relation
import Mathlib.Order.Bounds.Defs
import ModelAudit.Proofs.FreshName

/-!
# The least free identifier

The identifier of a new binder is the escaped name if that may be used. If not,
numbers from one on are tried until a primed identifier is free. Since only
finitely many identifiers are in use, the search ends, and it ends with the
least number. Identifiers of different names differ, even if they are picked in
scopes that know nothing of each other.
-/

namespace ModelAudit.HolScope

open Identifier Relation

/-- Neither visible in the scope nor to be avoided. -/
def Free (scope : HolScope) (avoided : List Text) (identifier : Text) : Prop :=
  identifier ∉ scope.taken ∧ identifier ∉ avoided

/-- An identifier that a new binder may get as it is. -/
def Allowed (scope : HolScope) (avoided : List Text)
    (identifier : Text) : Prop :=
  scope.Free avoided identifier ∧ identifier ∉ reserved

/-- A turn of the search for a primed identifier: the number that was tried is
given up for the next one. -/
inductive Tries (scope : HolScope) (avoided : List Text) (base : Text) :
    Nat → Nat → Prop
  | again {number : Nat} :
      ¬scope.Free avoided (primed base number) →
      Tries scope avoided base number (number + 1)

variable {scope : HolScope} {avoided : List Text} {base identifier : Text}

theorem free_iff : scope.Free avoided identifier ↔
    identifier ∉ scope.taken ++ avoided := by
  rw [Free, List.mem_append, not_or]

/-- From whatever number the search starts, it does not go on for ever. -/
theorem wellFounded_tries (scope : HolScope) (avoided : List Text)
    (base : Text) :
    WellFounded fun later number => Tries scope avoided base number later := by
  refine ⟨fun start => ?_⟩
  obtain ⟨index, -, free⟩ :=
    exists_primed_not_mem base (scope.taken ++ avoided) start
  -- The induction is on the distance to a number whose identifier is free.
  induction index generalizing start with
  | zero =>
      refine ⟨_, fun later tries => ?_⟩
      obtain ⟨taken⟩ := tries
      rw [Nat.zero_add] at free
      exact absurd (free_iff.mpr free) taken
  | succ index inductionHypothesis =>
      refine ⟨_, fun later tries => ?_⟩
      obtain ⟨_⟩ := tries
      exact inductionHypothesis (start + 1)
        (by rwa [← Nat.add_assoc, Nat.add_right_comm])

/-- The search from one on ends with the least number whose identifier is
free. -/
theorem exists_isLeast_firstPrimed (scope : HolScope) (avoided : List Text)
    (base : Text) :
    ∃ number, ReflTransGen (Tries scope avoided base) 1 number ∧
      IsLeast {number | 1 ≤ number ∧ scope.Free avoided (primed base number)}
        number ∧
      firstPrimed base (scope.taken ++ avoided) = primed base number := by
  obtain ⟨index, shape, free, used⟩ :=
    firstPrimed_spec base (scope.taken ++ avoided)
  have path (count : Nat) (atMost : count ≤ index) :
      ReflTransGen (Tries scope avoided base) 1 (count + 1) := by
    induction count with
    | zero => exact .refl
    | succ count inductionHypothesis =>
        have taken : ¬scope.Free avoided (primed base (count + 1)) :=
          fun unused =>
          free_iff.mp unused (used count atMost)
        exact (inductionHypothesis (Nat.le_of_succ_le atMost)).tail
          (.again taken)
  refine ⟨index + 1, path index (Nat.le_refl index),
    ⟨⟨Nat.le_add_left 1 index, free_iff.mpr free⟩, ?_⟩, shape⟩
  rintro number ⟨positive, unused⟩
  by_contra less
  have taken := used (number - 1) (by omega)
  rw [Nat.sub_add_cancel positive] at taken
  exact free_iff.mp unused taken

/-- The identifier of a new binder is neither in use nor reserved. It is the
escaped name if that is allowed, and else the escaped name with a prime and the
least number for which it is free. The search for the number always ends. No
other name gets the identifier in any scope. -/
theorem fresh_isLeast (scope : HolScope) (name : Text) (avoided : List Text) :
    (∀ base, WellFounded fun later number =>
      Tries scope avoided base number later) ∧
      scope.Allowed avoided (scope.fresh name avoided) ∧
      (scope.Allowed avoided (escape name) →
        scope.fresh name avoided = escape name) ∧
      (¬scope.Allowed avoided (escape name) →
        ∃ number, ReflTransGen (Tries scope avoided (escape name)) 1 number ∧
          IsLeast {number | 1 ≤ number ∧
            scope.Free avoided (primed (escape name) number)} number ∧
          scope.fresh name avoided = primed (escape name) number) ∧
      ∀ (otherScope : HolScope) (other : Text) (otherAvoided : List Text),
        other ≠ name →
        otherScope.fresh other otherAvoided ≠ scope.fresh name avoided := by
  have allowed_iff : scope.Allowed avoided (escape name) ↔
      escape name ∉ scope.taken ++ avoided ∧ escape name ∉ reserved :=
    and_congr_left' free_iff
  refine ⟨wellFounded_tries scope avoided,
    ⟨free_iff.mpr (fresh_not_mem scope name avoided),
      fresh_not_mem_reserved scope name avoided⟩,
    fun allowed => ?_, fun notAllowed => ?_,
    fun otherScope other otherAvoided different same => ?_⟩
  · rcases fresh_cases scope name avoided with ⟨_, _, same⟩ | ⟨unusable, _⟩
    · exact same
    · exact absurd (allowed_iff.mp allowed) unusable
  · rcases fresh_cases scope name avoided with ⟨free, plain, _⟩ | ⟨_, same⟩
    · exact absurd (allowed_iff.mpr ⟨free, plain⟩) notAllowed
    · obtain ⟨number, path, isLeast, shape⟩ :=
        exists_isLeast_firstPrimed scope avoided (escape name)
      exact ⟨number, path, isLeast, same.trans shape⟩
  · have otherStandsFor := fresh_standsFor otherScope other otherAvoided
    rw [same] at otherStandsFor
    exact different (otherStandsFor.unique (fresh_standsFor scope name avoided))

/-- The first number is in use in the scope and the second one is to be
avoided. -/
example :
    fresh ⟨[], ["v_if", "v_if'1"]⟩ "if" ["v_if'2", "v_if'4"] =
      ("v_if'3" : Text) := by
  decide +kernel

end ModelAudit.HolScope
