import ModelAudit.Hol.Translation
import ModelAudit.Proofs.Outcome

/-!
# What the spelling of an operator is made of

An applied operator is written with constants around its arguments, which may be
left out, repeated and nested. So every property that passes from the parts of
such terms to the whole passes from the arguments to the application. The
constants are those of the ways in which the operator may be written, and those
of templates.
-/

namespace ModelAudit

def Template.functions : List Text :=
  ["-", "word_cat", "drop_bit", "ucast", "scast", "int", "length"]

/-- The fixity is known, and so is the function that it stands for before one
argument. -/
def Fixity.Known (known : Fixity → Prop) : Fixity → Prop
  | templated template => known (.prefixed template.text)
  | sectioned symbol => known (.sectioned symbol) ∧ known (.prefixed symbol)
  | fixity => known fixity

theorem Fixity.known_of_forall {known : Fixity → Prop} {fixity : Fixity}
    (all : ∀ fixity, known fixity) : fixity.Known known := by
  cases fixity with
  | sectioned symbol => exact ⟨all _, all _⟩
  | infixed symbol => exact all _
  | prefixed function => exact all _
  | templated template => exact all _

/-- The property passes from arguments to applications of operators that are
written in known ways. -/
structure OperatorClosed (known : Fixity → Prop) (holds : HolTerm → Prop) :
    Prop where
  truth : holds (.truth true)
  call : ∀ function arguments, known (.prefixed function) →
    (∀ argument ∈ arguments, holds argument) → holds (.call function arguments)
  applySection : ∀ symbol arguments, known (.sectioned symbol) →
    (∀ argument ∈ arguments, holds argument) →
    holds (.apply (.operatorSection symbol) arguments)
  operation : ∀ symbol left right, known (.infixed symbol) → holds left →
    holds right →
    holds (.operation symbol left right)
  conjunction : ∀ parts, 2 ≤ parts.length → (∀ part ∈ parts, holds part) →
    holds (.conjunction parts)

/-- The property passes from parts to the whole wherever no variable is bound,
whatever the indices are and whatever types that fit are written. -/
structure Compositional (known : Fixity → Prop) (fits : HolType → Prop)
    (holds : HolTerm → Prop) : Prop extends OperatorClosed known holds where
  functions : ∀ function ∈ Template.functions, known (.prefixed function)
  index : ∀ number, holds (.constant (Text.decimal number))
  ofSort : ∀ userSorts (sort : SmtSort) type, sort.toHol userSorts = .ok type →
      fits type
  apply : ∀ function arguments, holds function →
    (∀ argument ∈ arguments, holds argument) →
    holds (.apply function arguments)
  conditional : ∀ test first second, holds test → holds first → holds second →
    holds (.conditional test first second)
  update : ∀ function argument value, holds function → holds argument →
    holds value →
    holds (.update function argument value)
  constantFunction : ∀ argumentType value, fits argumentType → holds value →
    holds (.constantFunction argumentType value)
  typed : ∀ function arguments type, known (.prefixed function) →
    (∀ argument ∈ arguments, holds argument) → fits type →
    holds (.typed function arguments type)
  isIntegral : ∀ number, holds number → holds (.isIntegral number)

theorem OperatorTable.spelling?_default (operator : Operator) :
    (OperatorTable.default operator).spelling? = operator.defaultSpelling? := by
  cases known : operator.defaultSpelling? <;>
    simp [OperatorTable.default, known, SpellingEntry.spelling?]

namespace Translation

theorem mem_pairs {Value : Type} {values : List Value} {couple : Value × Value}
    (member : couple ∈ pairs values) : couple.fst ∈ values ∧
    couple.snd ∈ values := by
  induction values with
  | nil => cases member
  | cons first others inductionHypothesis =>
      rcases List.mem_append.mp member with inside | later
      · obtain ⟨other, otherMember, rfl⟩ := List.mem_map.mp inside
        exact ⟨List.mem_cons_self, List.mem_cons_of_mem _ otherMember⟩
      · obtain ⟨left, right⟩ := inductionHypothesis later
        exact ⟨List.mem_cons_of_mem _ left, List.mem_cons_of_mem _ right⟩

theorem mem_neighbours {Value : Type} {values : List Value}
    {couple : Value × Value} (member : couple ∈ neighbours values) :
    couple.fst ∈ values ∧ couple.snd ∈ values := by
  obtain ⟨left, right⟩ := List.of_mem_zip member
  exact ⟨left, List.mem_of_mem_drop right⟩

theorem eq_some_of_spelled {operator : Operator} {term : Option HolTerm}
    {translated : HolTerm} (shape : spelled operator term = .ok translated) :
    term = some translated := by
  cases term with
  | none => cases shape
  | some term => exact congrArg some (Except.ok.inj shape)

end Translation

variable {known : Fixity → Prop} {fits : HolType → Prop}
  {holds : HolTerm → Prop} {fixity : Fixity} {first : HolTerm}
  {others : List HolTerm}

namespace OperatorClosed

open Translation

theorem conjoin (closed : OperatorClosed known holds) {parts : List HolTerm}
    (each : ∀ part ∈ parts, holds part) : holds (.conjoin parts) := by
  match parts with
  | [] => exact closed.truth
  | [part] => exact each part (List.mem_singleton_self part)
  | first :: second :: others => exact closed.conjunction _ (by simp) each

theorem binary (closed : OperatorClosed known holds)
    (fixityKnown : fixity.Known known) {left right : HolTerm}
    (leftHolds : holds left) (rightHolds : holds right) :
    holds (binary fixity left right) := by
  have each : ∀ argument ∈ [left, right], holds argument := by
    simp [leftHolds, rightHolds]
  cases fixity with
  | infixed symbol =>
    exact closed.operation _ _ _ fixityKnown leftHolds rightHolds
  | prefixed function => exact closed.call _ _ fixityKnown each
  | sectioned symbol => exact closed.applySection _ _ fixityKnown.1 each
  | templated template => exact closed.call _ _ fixityKnown each

theorem unary (closed : OperatorClosed known holds) {spelling : Spelling}
    (fixityKnown : spelling.fixity.Known known) {argument : HolTerm}
    (argumentHolds : holds argument) : holds (unary spelling argument) := by
  have each : ∀ other ∈ [argument], holds other := by
    simpa using argumentHolds
  unfold Translation.unary
  split
  · exact argumentHolds
  · next function shape =>
    rw [shape] at fixityKnown
    exact closed.call _ _ fixityKnown each
  · next symbol shape =>
    rw [shape] at fixityKnown
    exact closed.call _ _ fixityKnown.2 each
  · next template shape =>
    rw [shape] at fixityKnown
    exact closed.call _ _ fixityKnown each

theorem foldl (closed : OperatorClosed known holds)
    (fixityKnown : fixity.Known known) (firstHolds : holds first)
    (othersHold : ∀ other ∈ others, holds other) :
    holds (others.foldl (Translation.binary fixity) first) := by
  induction others generalizing first with
  | nil => exact firstHolds
  | cons next others inductionHypothesis =>
      obtain ⟨nextHolds, restHold⟩ := List.forall_mem_cons.mp othersHold
      exact inductionHypothesis (closed.binary fixityKnown firstHolds nextHolds)
        restHold

theorem foldRight (closed : OperatorClosed known holds)
    (fixityKnown : fixity.Known known) (firstHolds : holds first)
    (othersHold : ∀ other ∈ others, holds other) :
    holds (foldRight fixity first others) := by
  induction others generalizing first with
  | nil => exact firstHolds
  | cons next others inductionHypothesis =>
      obtain ⟨nextHolds, restHold⟩ := List.forall_mem_cons.mp othersHold
      exact closed.binary fixityKnown firstHolds
        (inductionHypothesis nextHolds restHold)

theorem holdsOf (closed : OperatorClosed known holds)
    (fixityKnown : fixity.Known known) {arguments : List HolTerm}
    {couples : List (HolTerm × HolTerm)}
    (each : ∀ argument ∈ arguments, holds argument)
    (inside : ∀ couple ∈ couples, couple.fst ∈ arguments ∧
      couple.snd ∈ arguments) :
    holds (.conjoin
      (couples.map fun (left, right) =>
        Translation.binary fixity left right)) := by
  apply closed.conjoin
  intro part member
  obtain ⟨couple, coupleMember, rfl⟩ := List.mem_map.mp member
  obtain ⟨left, right⟩ := inside couple coupleMember
  exact closed.binary fixityKnown (each _ left) (each _ right)

/-- What is made of several arguments has a property that passes through
applications. -/
theorem several (closed : OperatorClosed known holds) {spelling : Spelling}
    (fixityKnown : spelling.fixity.Known known)
    (each : ∀ argument ∈ first :: others, holds argument) :
    holds (several spelling first others) := by
  obtain ⟨firstHolds, othersHold⟩ := List.forall_mem_cons.mp each
  unfold Translation.several
  dsimp only
  split
  · exact closed.holdsOf fixityKnown each fun couple member => mem_pairs member
  · split
    · exact closed.holdsOf fixityKnown each fun couple member =>
        mem_neighbours member
    · split
      · exact closed.foldRight fixityKnown firstHolds othersHold
      · next function _ shape =>
        rw [shape] at fixityKnown
        exact closed.call _ _ fixityKnown each
      · next symbol _ shape =>
        rw [shape] at fixityKnown
        exact closed.applySection _ _ fixityKnown.1 each
      · exact closed.foldl fixityKnown firstHolds othersHold

/-- What holds of all arguments holds of the application, if it holds of the
form that the spelling has for one argument. -/
theorem plain? (closed : OperatorClosed known holds) {spelling : Spelling}
    (fixityKnown : spelling.fixity.Known known) {arguments : List HolTerm}
    {translated : HolTerm}
    (single : ∀ template, spelling.single = some template →
      template.fill? ⟨arguments, [], .bool, none⟩ = some translated →
      holds translated)
    (each : ∀ argument ∈ arguments, holds argument)
    (shape : plain? spelling arguments = some translated) :
    holds translated := by
  match arguments with
  | [] => cases shape
  | [argument] =>
      rw [Translation.plain?] at shape
      split at shape
      · obtain rfl := Option.some.inj shape
        exact closed.unary fixityKnown
          (each argument (List.mem_singleton_self argument))
      · next template form => exact single template form shape
  | first :: second :: others =>
      obtain rfl := Option.some.inj shape
      exact closed.several fixityKnown each

end OperatorClosed

namespace Compositional

open Translation

/-- What a template makes of arguments has a property that passes from parts to
the whole. -/
theorem fill? (compositional : Compositional known fits holds)
    {template : Template} {fields : TemplateFields} {translated : HolTerm}
    (each : ∀ argument ∈ fields.arguments, holds argument)
    (indices : ∀ index ∈ fields.indices, holds (.constant index))
    (type : fits fields.type)
    (indexType : ∀ type, fields.indexType = some type → fits type)
    (filled : template.fill? fields = some translated) : holds translated := by
  have call {function : Text} {argument : HolTerm}
      (listed : function ∈ Template.functions)
      (argumentHolds : holds argument) : holds (.call function [argument]) :=
    compositional.call _ _ (compositional.functions function listed)
      (List.forall_mem_singleton.mpr argumentHolds)
  have typed {function : Text} {argument : HolTerm}
      (listed : function ∈ Template.functions)
      (argumentHolds : holds argument) :
        holds (.typed function [argument] fields.type) :=
    compositional.typed _ _ _ (compositional.functions function listed)
      (List.forall_mem_singleton.mpr argumentHolds) type
  unfold Template.fill? at filled
  split at filled
  · next test first second others arguments =>
    obtain rfl := Option.some.inj filled
    simp only [arguments, List.forall_mem_cons] at each
    exact compositional.conditional _ _ _ each.1 each.2.1 each.2.2.1
  · next argument others arguments =>
    obtain rfl := Option.some.inj filled
    simp only [arguments, List.forall_mem_cons] at each
    exact call (by decide) each.1
  · next argument others arguments =>
    obtain rfl := Option.some.inj filled
    simp only [arguments, List.forall_mem_cons] at each
    exact compositional.isIntegral _ each.1
  · next left right others arguments =>
    obtain rfl := Option.some.inj filled
    simp only [arguments, List.forall_mem_cons] at each
    exact compositional.typed _ _ _ (compositional.functions _ (by decide))
      (by simpa using ⟨each.1, each.2.1⟩) type
  · next argument others arguments =>
    simp only [arguments, List.forall_mem_cons] at each
    split at filled
    · next low _ listed =>
      obtain rfl := Option.some.inj filled
      have lowHolds := indices low (by simp [listed])
      have dropped :=
        compositional.call "drop_bit" _ (compositional.functions _ (by decide))
          (List.forall_mem_cons.mpr
            ⟨lowHolds, List.forall_mem_singleton.mpr each.1⟩)
      exact typed (by decide) dropped
    · cases filled
  · next argument others arguments =>
    obtain rfl := Option.some.inj filled
    simp only [arguments, List.forall_mem_cons] at each
    exact typed (by decide) each.1
  · next argument others arguments =>
    obtain rfl := Option.some.inj filled
    simp only [arguments, List.forall_mem_cons] at each
    exact typed (by decide) each.1
  · next array index others arguments =>
    obtain rfl := Option.some.inj filled
    simp only [arguments, List.forall_mem_cons] at each
    exact compositional.apply _ _ each.1
      (List.forall_mem_singleton.mpr each.2.1)
  · next array index value others arguments =>
    obtain rfl := Option.some.inj filled
    simp only [arguments, List.forall_mem_cons] at each
    exact compositional.update _ _ _ each.1 each.2.1 each.2.2.1
  · next value others arguments =>
    obtain ⟨argumentType, found, rfl⟩ := Option.map_eq_some_iff.mp filled
    simp only [arguments, List.forall_mem_cons] at each
    exact compositional.constantFunction _ _ (indexType _ found) each.1
  · next argument others arguments =>
    obtain rfl := Option.some.inj filled
    simp only [arguments, List.forall_mem_cons] at each
    exact each.1
  · next argument others arguments =>
    obtain rfl := Option.some.inj filled
    simp only [arguments, List.forall_mem_cons] at each
    exact call (by decide) (call (by decide) each.1)
  · cases filled

/-- What holds of all arguments holds of the application, if the operator is
written in a known way unless it has a template. -/
theorem spell (compositional : Compositional known fits holds)
    {vocabulary : Vocabulary} {operator : Operator} {indices : List Nat}
    {arguments : List HolTerm} {sort : SmtSort}
    {translated : HolTerm}
    (fixityKnown : ∀ spelling, (vocabulary.operators operator).spelling? =
        some spelling →
      (∀ template, spelling.fixity ≠ .templated template) →
      spelling.fixity.Known known)
    (each : ∀ argument ∈ arguments, holds argument)
    (shape : spell vocabulary operator indices arguments sort =
      .ok translated) :
    holds translated := by
  unfold Translation.spell at shape
  split at shape
  · cases shape
  · next spelling found =>
    split at shape
    · obtain ⟨type, typeShape, shape⟩ := Outcome.bind_eq_ok.mp shape
      obtain ⟨indexType, indexShape, shape⟩ := Outcome.bind_eq_ok.mp shape
      refine compositional.fill? each ?_
        (compositional.ofSort _ _ _ typeShape) ?_ (eq_some_of_spelled shape)
      · exact List.forall_mem_map.mpr fun number _ => compositional.index number
      · rintro argumentType rfl
        unfold indexType? at indexShape
        split at indexShape
        · cases indexShape
        · obtain ⟨translatedIndex, translation, same⟩ :=
            Outcome.bind_eq_ok.mp indexShape
          obtain rfl := Option.some.inj (Except.ok.inj same)
          exact compositional.ofSort _ _ _ translation
    · next noTemplate =>
      have truths : SmtSort.toHol [] .bool = .ok .bool := by
        simp [SmtSort.bool, SmtSort.simple, SmtSort.toHol]
      refine compositional.plain?
        (fixityKnown spelling found noTemplate) ?_ each
        (eq_some_of_spelled shape)
      exact fun template _ filled => compositional.fill? each (by simp)
        (compositional.ofSort _ _ _ truths) (by simp) filled

end Compositional

end ModelAudit
