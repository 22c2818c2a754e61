import ModelAudit.Proofs.Outcome
import ModelAudit.Signature

/-!
# What signatures demand

The rule of an operator as a relation between the sorts of arguments, the
indices and the sort of the application. The checks of the rule succeed exactly
where the relation holds, whichever operator they are made for: its name stands
in the complaints only.
-/

namespace ModelAudit

theorem Arity.allows_iff {arity : Arity} {count : Nat} :
    arity.allows count = true ↔
      arity.least ≤ count ∧ ∀ most, arity.most = some most → count ≤ most := by
  simp only [Arity.allows, Bool.and_eq_true, Option.all_eq_true,
    decide_eq_true_eq]

theorem Arity.exactly_allows_iff {count got : Nat} :
    (Arity.exactly count).allows got = true ↔ got = count := by
  simp only [Arity.allows_iff, Arity.exactly, Option.some.injEq, forall_eq']
  omega

theorem Arity.atLeast_allows_iff {count got : Nat} :
    (Arity.atLeast count).allows got = true ↔ count ≤ got := by
  simp [Arity.allows_iff, Arity.atLeast]

namespace SignatureRule

/-- The sorts and indices that a rule admits, with the sort that it gives their
application. -/
inductive Gives : SignatureRule → List SmtSort → List Int → SmtSort → Prop
  | booleans {arity : Arity} {arguments : List SmtSort}
      (count : arity.allows arguments.length = true)
      (sorts : ∀ argument ∈ arguments, argument = .bool) :
      Gives (.booleans arity) arguments [] .bool
  | comparison {arguments : List SmtSort} {shared : SmtSort}
      (count : 2 ≤ arguments.length)
      (sorts : ∀ argument ∈ arguments, argument = shared) :
      Gives .comparison arguments [] .bool
  | conditional {branch : SmtSort} :
      Gives .conditional [.bool, branch, branch] [] branch
  | numbers {arity : Arity} {allowed : List SmtSort} {toBool : Bool}
      {arguments : List SmtSort} {shared : SmtSort}
      (count : arity.allows arguments.length = true)
      (nonempty : arguments ≠ [])
      (sorts : ∀ argument ∈ arguments, argument = shared)
      (among : shared ∈ allowed) :
      Gives (.numbers arity allowed toBool) arguments [] (if toBool then .bool
        else shared)
  | conversion {operand result : SmtSort} :
      Gives (.conversion operand result) [operand] [] result
  | bitVectors {arity : Arity} {toBool : Bool} {arguments : List SmtSort}
      {shared : SmtSort} {width : Int}
      (count : arity.allows arguments.length = true) (nonempty : arguments ≠ [])
      (sorts : ∀ argument ∈ arguments, argument = shared)
      (wide : shared.width? = some width) :
      Gives (.bitVectors arity toBool) arguments [] (if toBool then .bool
        else shared)
  | concatenation {left right : SmtSort} {leftWidth rightWidth : Int}
      (leftWide : left.width? = some leftWidth)
      (rightWide : right.width? = some rightWidth) :
      Gives .concatenation [left, right] [] (.bitVec (leftWidth + rightWidth))
  | extraction {operand : SmtSort} {width high low : Int}
      (wide : operand.width? = some width) (start : 0 ≤ low)
      (ordered : low ≤ high) (bounded : high < width) :
      Gives .extraction [operand] [high, low] (.bitVec (high - low + 1))
  | extension {operand : SmtSort} {width added : Int}
      (wide : operand.width? = some width) :
      Gives .extension [operand] [added] (.bitVec (width + added))
  | select {array index element : SmtSort}
      (parts : array.arrayParts? = some (index, element)) :
      Gives .select [array, index] [] element
  | store {array index element : SmtSort}
      (parts : array.arrayParts? = some (index, element)) :
      Gives .store [array, index, element] [] array
  | strings {arity : Arity} {arguments : List SmtSort} {result : SmtSort}
      (count : arity.allows arguments.length = true)
      (sorts : ∀ argument ∈ arguments, argument = .string) :
      Gives (.strings arity result) arguments [] result
  | fixed {params : List SmtSort} {result : SmtSort} :
      Gives (.fixed params result) params [] result

variable {operator : Operator} {arguments : List SmtSort} {indices : List Int}
  {sort : SmtSort}

/-- How many arguments the rule admits. -/
def arity : SignatureRule → Arity
  | booleans arity | numbers arity _ _ | bitVectors arity _ | strings arity _ =>
    arity
  | comparison => .atLeast 2
  | conversion _ _ | extraction | extension => .exactly 1
  | concatenation | select => .exactly 2
  | conditional | store => .exactly 3
  | fixed params _ => .exactly params.length

theorem Gives.allows {rule : SignatureRule}
    (given : rule.Gives arguments indices sort) :
    rule.arity.allows arguments.length = true := by
  cases given with
  | booleans count | numbers count | bitVectors count | strings count =>
    exact count
  | comparison count => exact Arity.atLeast_allows_iff.mpr count
  | _ => exact Arity.exactly_allows_iff.mpr rfl

/-- Indices are for parts of bit-vectors and for their extensions. -/
theorem Gives.indices_eq_nil {rule : SignatureRule}
    (given : rule.Gives arguments indices sort) (noPart : rule ≠ .extraction)
    (noExtension : rule ≠ .extension) : indices = [] := by
  cases given with
  | extraction => exact absurd rfl noPart
  | extension => exact absurd rfl noExtension
  | _ => rfl

/-! ## Single checks -/

theorem requireNoIndices_eq_ok_iff :
    requireNoIndices operator indices = .ok () ↔ indices = [] := by
  simp [requireNoIndices]

theorem requireArity_eq_ok_iff {arity : Arity} :
    requireArity operator arity arguments = .ok () ↔
      arity.allows arguments.length = true := by
  simp [requireArity]

/-- Each argument must have the sort that is expected at its place. -/
theorem requireSorts_eq_ok_iff {place : Nat} {expected : List SmtSort}
    (lengths : arguments.length = expected.length) :
    requireSorts operator place arguments expected = .ok () ↔
      arguments = expected := by
  induction arguments generalizing place expected with
  | nil => simp [requireSorts, List.length_eq_zero_iff.mp lengths.symm]
  | cons got arguments inductionHypothesis =>
      cases expected with
      | nil => cases lengths
      | cons wanted expected =>
          have rest :=
            @inductionHypothesis (place + 1) expected (Nat.succ.inj lengths)
          rw [requireSorts, List.cons.injEq, ← rest]
          split
          · next same => simp [same]
          · next different => simp [different]

/-- All arguments are asked to have one sort. -/
theorem requireSame_eq_ok_iff {place : Nat} {wanted : SmtSort} :
    requireSorts operator place arguments (arguments.map fun _ => wanted) =
        .ok () ↔
      ∀ argument ∈ arguments, argument = wanted := by
  rw [requireSorts_eq_ok_iff (by simp), List.map_const', List.eq_replicate_iff]
  simp

/-- There must be arguments, and all must have one sort. -/
theorem commonSort_eq_ok_iff :
    commonSort operator arguments = .ok sort ↔
      arguments ≠ [] ∧ ∀ argument ∈ arguments, argument = sort := by
  match arguments with
  | [] => simp [commonSort]
  | first :: others =>
      rw [commonSort, Outcome.check_bind_eq_ok, requireSame_eq_ok_iff,
        Outcome.pure_eq, Except.ok.injEq, List.forall_mem_cons]
      constructor
      · rintro ⟨same, rfl⟩
        exact ⟨List.cons_ne_nil _ _, rfl, same⟩
      · rintro ⟨-, rfl, same⟩
        exact ⟨same, rfl⟩

theorem requireWidth_eq_ok_iff {fault : SmtSort → SignatureFault}
    {width : Int} :
    requireWidth fault sort = .ok width ↔ sort.width? = some width := by
  rw [requireWidth]
  split
  · next known => simp [known]
  · next unknown => simp [unknown]

theorem requireArray_eq_ok_iff {parts : SmtSort × SmtSort} :
    requireArray operator sort = .ok parts ↔ sort.arrayParts? = some parts := by
  rw [requireArray]
  split
  · next known => simp [known]
  · next unknown => simp [unknown]

/-- The checks that come first in the rules without indices. -/
theorem unindexed_eq_ok_iff {arity : Arity}
    {next : Except SignatureFault SmtSort} :
    (do
      requireNoIndices operator indices
      requireArity operator arity arguments
      next) = .ok sort ↔
      indices = [] ∧ arity.allows arguments.length = true ∧
      next = .ok sort := by
  rw [Outcome.check_bind_eq_ok, Outcome.check_bind_eq_ok,
    requireNoIndices_eq_ok_iff, requireArity_eq_ok_iff]

/-! ## Rules -/

/-- What the checks of a rule let through is what the rule gives. -/
theorem gives_of_resultSort {rule : SignatureRule}
    (fits : rule.resultSort operator arguments indices = .ok sort) :
    rule.Gives arguments indices sort := by
  cases rule with
  | booleans arity =>
      obtain ⟨rfl, count, fits⟩ := unindexed_eq_ok_iff.mp fits
      obtain ⟨sorts, ⟨⟩⟩ := Outcome.check_bind_eq_ok.mp fits
      exact .booleans count (requireSame_eq_ok_iff.mp sorts)
  | comparison =>
      obtain ⟨rfl, count, fits⟩ := unindexed_eq_ok_iff.mp fits
      obtain ⟨shared, common, ⟨⟩⟩ := Outcome.bind_eq_ok.mp fits
      exact .comparison (Arity.allows_iff.mp count).1
        (commonSort_eq_ok_iff.mp common).2
  | conditional =>
      obtain ⟨rfl, -, fits⟩ := unindexed_eq_ok_iff.mp fits
      split at fits
      · next test first second =>
        split_ifs at fits with boolean same
        cases fits
        rw [not_not] at boolean same
        subst boolean same
        exact .conditional
      · cases fits
  | numbers arity allowed toBool =>
      obtain ⟨rfl, count, fits⟩ := unindexed_eq_ok_iff.mp fits
      obtain ⟨shared, common, fits⟩ := Outcome.bind_eq_ok.mp fits
      obtain ⟨nonempty, sorts⟩ := commonSort_eq_ok_iff.mp common
      split at fits
      · next among =>
        obtain rfl := Except.ok.inj fits
        exact .numbers count nonempty sorts (List.contains_iff_mem.mp among)
      · cases fits
  | conversion operand result =>
      obtain ⟨rfl, -, fits⟩ := unindexed_eq_ok_iff.mp fits
      split at fits
      · split at fits
        · next same =>
          cases fits
          exact same ▸ .conversion
        · cases fits
      · cases fits
  | bitVectors arity toBool =>
      obtain ⟨rfl, count, fits⟩ := unindexed_eq_ok_iff.mp fits
      obtain ⟨shared, common, fits⟩ := Outcome.bind_eq_ok.mp fits
      obtain ⟨width, wide, fits⟩ := Outcome.bind_eq_ok.mp fits
      obtain ⟨nonempty, sorts⟩ := commonSort_eq_ok_iff.mp common
      obtain rfl := Except.ok.inj fits
      exact .bitVectors count nonempty sorts (requireWidth_eq_ok_iff.mp wide)
  | concatenation =>
      obtain ⟨rfl, -, fits⟩ := unindexed_eq_ok_iff.mp fits
      split at fits
      · obtain ⟨leftWidth, leftWide, fits⟩ := Outcome.bind_eq_ok.mp fits
        obtain ⟨rightWidth, rightWide, ⟨⟩⟩ := Outcome.bind_eq_ok.mp fits
        exact .concatenation (requireWidth_eq_ok_iff.mp leftWide)
          (requireWidth_eq_ok_iff.mp rightWide)
      · cases fits
  | extraction =>
      obtain ⟨-, fits⟩ := Outcome.check_bind_eq_ok.mp fits
      split at fits
      · obtain ⟨width, wide, fits⟩ := Outcome.bind_eq_ok.mp fits
        split at fits
        · next range =>
          obtain rfl := Except.ok.inj fits
          exact .extraction (requireWidth_eq_ok_iff.mp wide) range.1 range.2.1
            range.2.2
        · cases fits
      · cases fits
  | extension =>
      obtain ⟨-, fits⟩ := Outcome.check_bind_eq_ok.mp fits
      split at fits
      · obtain ⟨width, wide, ⟨⟩⟩ := Outcome.bind_eq_ok.mp fits
        exact .extension (requireWidth_eq_ok_iff.mp wide)
      · cases fits
  | select =>
      obtain ⟨rfl, -, fits⟩ := unindexed_eq_ok_iff.mp fits
      split at fits
      · obtain ⟨⟨index, element⟩, parts, fits⟩ := Outcome.bind_eq_ok.mp fits
        dsimp only at fits
        split at fits
        · next same =>
          cases fits
          exact same ▸ .select (requireArray_eq_ok_iff.mp parts)
        · cases fits
      · cases fits
  | store =>
      obtain ⟨rfl, -, fits⟩ := unindexed_eq_ok_iff.mp fits
      split at fits
      · obtain ⟨⟨index, element⟩, parts, fits⟩ := Outcome.bind_eq_ok.mp fits
        dsimp only at fits
        split_ifs at fits with indexSame elementSame
        cases fits
        rw [not_not] at indexSame elementSame
        subst indexSame elementSame
        exact .store (requireArray_eq_ok_iff.mp parts)
      · cases fits
  | strings arity result =>
      obtain ⟨rfl, count, fits⟩ := unindexed_eq_ok_iff.mp fits
      obtain ⟨sorts, ⟨⟩⟩ := Outcome.check_bind_eq_ok.mp fits
      exact .strings count (requireSame_eq_ok_iff.mp sorts)
  | fixed params result =>
      obtain ⟨rfl, count, fits⟩ := unindexed_eq_ok_iff.mp fits
      obtain ⟨sorts, ⟨⟩⟩ := Outcome.check_bind_eq_ok.mp fits
      obtain rfl :=
        (requireSorts_eq_ok_iff (Arity.exactly_allows_iff.mp count)).mp sorts
      exact .fixed

/-- A rule accepts all operands that it admits. -/
theorem Gives.resultSort {rule : SignatureRule}
    (given : rule.Gives arguments indices sort) :
    rule.resultSort operator arguments indices = .ok sort := by
  cases given with
  | booleans count sorts =>
      exact unindexed_eq_ok_iff.mpr
        ⟨rfl, count, Outcome.check_bind_eq_ok.mpr
          ⟨requireSame_eq_ok_iff.mpr sorts, rfl⟩⟩
  | comparison count sorts =>
      have nonempty := List.ne_nil_of_length_pos (Nat.zero_lt_of_lt count)
      have counted : (Arity.atLeast 2).allows arguments.length = true :=
        Arity.allows_iff.mpr ⟨count, nofun⟩
      exact unindexed_eq_ok_iff.mpr
        ⟨rfl, counted, Outcome.bind_eq_ok.mpr
          ⟨_, commonSort_eq_ok_iff.mpr ⟨nonempty, sorts⟩, rfl⟩⟩
  | conditional => exact unindexed_eq_ok_iff.mpr ⟨rfl, rfl, by simp⟩
  | numbers count nonempty sorts among =>
      refine unindexed_eq_ok_iff.mpr
        ⟨rfl, count, Outcome.bind_eq_ok.mpr
          ⟨_, commonSort_eq_ok_iff.mpr ⟨nonempty, sorts⟩, ?_⟩⟩
      exact if_pos (List.contains_iff_mem.mpr among)
  | conversion => exact unindexed_eq_ok_iff.mpr ⟨rfl, rfl, if_pos rfl⟩
  | bitVectors count nonempty sorts wide =>
      exact unindexed_eq_ok_iff.mpr
        ⟨rfl, count, Outcome.bind_eq_ok.mpr
          ⟨_, commonSort_eq_ok_iff.mpr ⟨nonempty, sorts⟩,
          Outcome.bind_eq_ok.mpr ⟨_, requireWidth_eq_ok_iff.mpr wide, rfl⟩⟩⟩
  | concatenation leftWide rightWide =>
      exact unindexed_eq_ok_iff.mpr
        ⟨rfl, rfl, Outcome.bind_eq_ok.mpr
          ⟨_, requireWidth_eq_ok_iff.mpr leftWide,
          Outcome.bind_eq_ok.mpr
            ⟨_, requireWidth_eq_ok_iff.mpr rightWide, rfl⟩⟩⟩
  | extraction wide start ordered bounded =>
      refine Outcome.check_bind_eq_ok.mpr
        ⟨rfl, Outcome.bind_eq_ok.mpr ⟨_, requireWidth_eq_ok_iff.mpr wide, ?_⟩⟩
      exact if_pos ⟨start, ordered, bounded⟩
  | extension wide =>
      exact Outcome.check_bind_eq_ok.mpr
        ⟨rfl, Outcome.bind_eq_ok.mpr ⟨_, requireWidth_eq_ok_iff.mpr wide, rfl⟩⟩
  | select parts =>
      exact unindexed_eq_ok_iff.mpr
        ⟨rfl, rfl, Outcome.bind_eq_ok.mpr ⟨_, requireArray_eq_ok_iff.mpr parts,
          if_pos rfl⟩⟩
  | store parts =>
      refine unindexed_eq_ok_iff.mpr
        ⟨rfl, rfl, Outcome.bind_eq_ok.mpr
          ⟨_, requireArray_eq_ok_iff.mpr parts, ?_⟩⟩
      simp only [ne_eq, not_true_eq_false, if_false, Outcome.pure_eq]
  | strings count sorts =>
      exact unindexed_eq_ok_iff.mpr
        ⟨rfl, count, Outcome.check_bind_eq_ok.mpr
          ⟨requireSame_eq_ok_iff.mpr sorts, rfl⟩⟩
  | fixed =>
      exact unindexed_eq_ok_iff.mpr
        ⟨rfl, Arity.exactly_allows_iff.mpr rfl,
          Outcome.check_bind_eq_ok.mpr
            ⟨(requireSorts_eq_ok_iff rfl).mpr rfl, rfl⟩⟩

/-- The checks of a rule succeed where the rule gives a sort, with this sort. -/
theorem resultSort_eq_ok_iff {rule : SignatureRule} :
    rule.resultSort operator arguments indices = .ok sort ↔
      rule.Gives arguments indices sort :=
  ⟨gives_of_resultSort, Gives.resultSort⟩

end SignatureRule

end ModelAudit
