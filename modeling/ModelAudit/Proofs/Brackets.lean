import ModelAudit.Proofs.InnerSyntax

/-!
# Nested brackets

A text in which every bracket has its partner keeps these partners wherever it
is put: a group of the surrounding text lies inside the text, around it or
beside it. A text is delimited if it is one word, or if its first and last
brackets are partners.
-/

namespace ModelAudit

namespace Text

/-! ## Nesting -/

def bracketPairs : List (CodePoint × CodePoint) :=
  [('(', ')'), ('[', ']')]

def brackets : List CodePoint :=
  bracketPairs.flatMap fun (opening, closing) => [opening, closing]

/-- Every bracket has a partner of its kind, and groups are nested or beside
each other. -/
inductive Nested : Text → Prop
  | nil : Nested []
  | point {point : CodePoint} {rest : Text} : point ∉ brackets → Nested rest →
      Nested (point :: rest)
  | group {opening closing : CodePoint} {inside rest : Text} :
      (opening, closing) ∈ bracketPairs → Nested inside → Nested rest →
      Nested (opening :: inside ++ closing :: rest)

/-- Two partners with all that stands between them. -/
inductive IsGroup : Text → Prop
  | mk {opening closing : CodePoint} {inside : Text} :
      (opening, closing) ∈ bracketPairs →
      Nested inside → IsGroup (opening :: inside ++ [closing])

/-- A word, or all that stands between two parentheses that are partners. -/
def IsDelimited (text : Text) : Prop :=
  InnerSyntax.isWord text = true ∨ ∃ inside, Nested inside ∧
  text = "(" ++ inside ++ ")"

variable {text group before after left right early late rest inside : Text}

theorem nested_of_plain (plain : ∀ point ∈ text, point ∉ brackets) :
    Nested text := by
  induction text with
  | nil => exact .nil
  | cons first rest inductionHypothesis =>
      obtain ⟨here, later⟩ := List.forall_mem_cons.mp plain
      exact .point here (inductionHypothesis later)

theorem Nested.append (nested : Nested text) (restNested : Nested rest) :
    Nested (text ++ rest) := by
  induction nested with
  | nil => exact restNested
  | point plain _ inductionHypothesis => exact .point plain inductionHypothesis
  | group pair insideNested _ _ inductionHypothesis =>
      rw [List.append_assoc]
      exact .group pair insideNested inductionHypothesis

theorem IsGroup.nested (isGroup : IsGroup group) : Nested group := by
  obtain ⟨pair, nested⟩ := isGroup
  exact .group pair nested .nil

theorem isGroup_parens (nested : Nested inside) :
    IsGroup ("(" ++ inside ++ ")") :=
  .mk (by decide : (CodePoint.ofChar '(', CodePoint.ofChar ')') ∈ bracketPairs)
    nested

theorem isGroup_square (nested : Nested inside) :
    IsGroup ("[" ++ inside ++ "]") :=
  .mk (by decide : (CodePoint.ofChar '[', CodePoint.ofChar ']') ∈ bracketPairs)
    nested

/-! ## Openings and closings -/

/-- Openings count up and closings count down. -/
def weight (point : CodePoint) : Int :=
  if point ∈ bracketPairs.map Prod.fst then 1
  else if point ∈ bracketPairs.map Prod.snd then -1
  else 0

/-- How many brackets are opened and not closed. -/
def balance : Text → Int
  | [] => 0
  | point :: rest => weight point + balance rest

@[simp]
theorem balance_nil : balance [] = 0 :=
  rfl

@[simp]
theorem balance_cons (point : CodePoint) (rest : Text) :
    balance (point :: rest) = weight point + balance rest :=
  rfl

@[simp]
theorem balance_append (text rest : Text) :
    balance (text ++ rest) = balance text + balance rest := by
  induction text with
  | nil => rw [List.nil_append, balance_nil, Int.zero_add]
  | cons point text inductionHypothesis =>
      rw [List.cons_append, balance_cons, inductionHypothesis, balance_cons,
        Int.add_assoc]

theorem weight_of_mem_bracketPairs :
    ∀ pair ∈ bracketPairs, weight pair.fst = 1 ∧ weight pair.snd = -1 := by
  decide

theorem weight_of_not_mem_brackets {point : CodePoint}
    (plain : point ∉ brackets) :
    weight point = 0 := by
  simp only [brackets, bracketPairs, List.flatMap_cons, List.flatMap_nil,
    List.append_nil, List.mem_append, List.mem_cons, List.not_mem_nil, or_false,
    not_or] at plain
  simp [weight, bracketPairs, plain]

theorem Nested.balance_eq_zero (nested : Nested text) : balance text = 0 := by
  induction nested with
  | nil => rfl
  | point plain _ inductionHypothesis =>
      rw [balance_cons, weight_of_not_mem_brackets plain, inductionHypothesis,
        Int.add_zero]
  | group pair _ _ insideHypothesis restHypothesis =>
      obtain ⟨opens, closes⟩ := weight_of_mem_bracketPairs _ pair
      simp [insideHypothesis, restHypothesis, opens, closes]

/-- No bracket is closed before it is opened. -/
theorem Nested.balance_nonneg (nested : Nested (early ++ late)) :
    0 ≤ balance early := by
  generalize whole : early ++ late = text at nested
  induction nested generalizing early late with
  | nil =>
      rw [(List.append_eq_nil_iff.mp whole).1]
      exact Int.le_refl _
  | point plain _ inductionHypothesis =>
      rcases List.append_eq_cons_iff.mp whole
        with ⟨rfl, _⟩ | ⟨others, rfl, same⟩
      · exact Int.le_refl _
      · rw [balance_cons, weight_of_not_mem_brackets plain, Int.zero_add]
        exact inductionHypothesis same.symm
  | @group opening closing inside rest pair nested _ insideHypothesis
      restHypothesis =>
      obtain ⟨opens, closes⟩ := weight_of_mem_bracketPairs _ pair
      have closed := nested.balance_eq_zero
      rcases List.append_eq_cons_iff.mp whole
        with ⟨rfl, _⟩ | ⟨others, rfl, same⟩
      · exact Int.le_refl _
      rcases List.append_eq_append_iff.mp same
        with ⟨later, rfl, ends⟩ | ⟨later, shape, _⟩
      · rcases List.append_eq_cons_iff.mp ends.symm
          with ⟨rfl, _⟩ | ⟨last, rfl, tail⟩
        · simp [closed, opens]
        · have nonneg := restHypothesis tail.symm
          rw [balance_cons, balance_append, balance_cons, opens, closed, closes]
          omega
      · have nonneg := insideHypothesis shape.symm
        rw [balance_cons, opens]
        omega

/-- A group is closed by its last bracket only. -/
theorem IsGroup.balance_pos (isGroup : IsGroup (early ++ late))
    (earlyNonempty : early ≠ []) (lateNonempty : late ≠ []) :
    0 < balance early := by
  generalize whole : early ++ late = group at isGroup
  obtain ⟨pair, nested⟩ := isGroup
  obtain ⟨opens, _⟩ := weight_of_mem_bracketPairs _ pair
  rcases List.append_eq_cons_iff.mp whole with ⟨rfl, _⟩ | ⟨others, rfl, same⟩
  · exact absurd rfl earlyNonempty
  · obtain ⟨last, initial, rfl⟩ : ∃ last initial, late = initial ++ [last] :=
      ⟨_, _, (List.dropLast_concat_getLast lateNonempty).symm⟩
    have inside :=
      List.append_inj_left' (same.trans (List.append_assoc _ _ _).symm) rfl
    subst inside
    have nonneg := nested.balance_nonneg
    rw [balance_cons, opens]
    omega

/-! ## Surroundings -/

/-- Whatever surrounds the text, a group of the whole lies before the text,
around it, inside it or after it. -/
def KeepsApart (text : Text) : Prop :=
  ∀ before after left group right : Text, IsGroup group →
    before ++ text ++ after = left ++ group ++ right →
    (∃ rest, before = left ++ group ++ rest ∧ right = rest ++ text ++ after) ∨
    (∃ early late, group = early ++ text ++ late ∧ before = left ++ early ∧
      after = late ++ right) ∨
    (∃ early late, text = early ++ group ++ late ∧ left = before ++ early ∧
      right = late ++ after) ∨
    (∃ rest, after = rest ++ group ++ right ∧ left = before ++ text ++ rest)

/-- Nested brackets of a text never pair up with brackets around it, so groups
do not overlap. -/
theorem Nested.keepsApart (nested : Nested text) : KeepsApart text := by
  intro before after left group right isGroup same
  have textClosed := nested.balance_eq_zero
  have groupClosed := isGroup.nested.balance_eq_zero
  rw [List.append_assoc, List.append_assoc] at same
  rcases List.append_eq_append_iff.mp same
    with ⟨early, rfl, later⟩ | ⟨early, rfl, later⟩
  · rcases List.append_eq_append_iff.mp later
      with ⟨rest, rfl, rfl⟩ | ⟨shared, rfl, inner⟩
    · exact .inr (.inr (.inr ⟨rest, by simp⟩))
    rcases List.append_eq_append_iff.mp inner
      with ⟨rest, rfl, rfl⟩ | ⟨rest, rfl, rfl⟩
    · exact .inr (.inr (.inl ⟨early, rest, by simp⟩))
    -- A group would begin inside the text and end behind it.
    by_cases noneShared : shared = []
    · exact .inr (.inr (.inr ⟨[], by simp [noneShared]⟩))
    by_cases noneLeft : rest = []
    · exact .inr (.inr (.inl ⟨early, [], by simp [noneLeft]⟩))
    have positive := isGroup.balance_pos noneShared noneLeft
    have nonneg := nested.balance_nonneg
    rw [balance_append] at textClosed
    omega
  · rcases List.append_eq_append_iff.mp later
      with ⟨rest, rfl, rfl⟩ | ⟨shared, rfl, inner⟩
    · exact .inl ⟨rest, by simp⟩
    rcases List.append_eq_append_iff.mp inner
      with ⟨rest, rfl, rfl⟩ | ⟨rest, rfl, rfl⟩
    · exact .inr (.inl ⟨early, rest, by simp⟩)
    -- A group would begin before the text and end inside it.
    by_cases noneShared : shared = []
    · exact .inl ⟨[], by simp [noneShared]⟩
    by_cases noneLeft : early = []
    · exact .inr (.inr (.inl ⟨[], rest, by simp [noneLeft]⟩))
    have positive := isGroup.balance_pos noneLeft noneShared
    have nonneg := nested.balance_nonneg
    rw [balance_append] at groupClosed
    omega

end Text

end ModelAudit
