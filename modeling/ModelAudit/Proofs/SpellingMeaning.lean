import ModelAudit.Proofs.Meaning

/-!
# Spellings keep the meaning of operators

Applications with more than two arguments are nested to one side, chained or
spread over all pairs. For the operators of Core and Ints the result means what
the application means, whatever the arguments are.
-/

namespace ModelAudit

variable {Element : Type}

namespace HolTerm

variable {reading : HolInterpretation Element}
  {environment : Table (CommonValue Element)}

/-- The terms have these values. -/
def Evaluates (reading : HolInterpretation Element)
    (environment : Table (CommonValue Element)) (terms : List HolTerm)
    (values : List (CommonValue Element)) : Prop :=
  List.Forall₂ (fun term value => term.value reading environment = some value)
    terms values

theorem valueAll_of_evaluates {terms : List HolTerm}
    {values : List (CommonValue Element)}
    (evaluated : Evaluates reading environment terms values) :
    valueAll reading environment terms = some values := by
  induction evaluated with
  | nil => rfl
  | cons head _ inductionHypothesis =>
    rw [valueAll, head, inductionHypothesis]; rfl

end HolTerm

/-- No binder has the name of a constant. -/
def ConstantsFree (environment : Table (CommonValue Element)) : Prop :=
  ∀ symbol ∈ (holConstants : Table (List (CommonValue Element) → _)).names,
    environment.find? symbol = none

namespace CommonValue

@[simp]
theorem mapM_truth? (truths : List Prop) :
    (truths.map (truth : Prop → CommonValue Element)).mapM truth? =
      some truths := by
  induction truths with
  | nil => rfl
  | cons first others inductionHypothesis =>
      rw [List.map_cons, List.mapM_cons, inductionHypothesis]
      rfl

@[simp]
theorem mapM_number? (numbers : List Int) :
    (numbers.map (number : Int → CommonValue Element)).mapM number? =
      some numbers := by
  induction numbers with
  | nil => rfl
  | cons first others inductionHypothesis =>
      rw [List.map_cons, List.mapM_cons, inductionHypothesis]
      rfl

end CommonValue

namespace Translation

open HolTerm

variable {reading : HolInterpretation Element}
  {environment : Table (CommonValue Element)}

/-! ## Values of applications to two arguments -/

/-- How an application to two arguments is evaluated. -/
def Combines (reading : HolInterpretation Element)
    (environment : Table (CommonValue Element)) (fixity : Fixity)
    (combine : CommonValue Element → CommonValue Element →
      Option (CommonValue Element)) : Prop :=
  ∀ left right leftValue rightValue,
    left.value reading environment = some leftValue →
    right.value reading environment = some rightValue →
    (binary fixity left right).value reading environment =
      combine leftValue rightValue

theorem combines_infixed {symbol : Text}
    {combine : CommonValue Element → CommonValue Element →
      Option (CommonValue Element)}
    (known : holInfixes.find? symbol = some combine) :
    Combines reading environment (.infixed symbol) combine := by
  intro left right leftValue rightValue leftEvaluated rightEvaluated
  rw [binary, HolTerm.value, known, leftEvaluated, rightEvaluated]
  rfl

theorem value_constant {symbol : Text}
    {constant : List (CommonValue Element) → Option (CommonValue Element)}
    (free : ConstantsFree environment)
    (known : holConstants.find? symbol = some constant) :
    (HolTerm.constant symbol).value reading environment = constant [] := by
  have unbound : environment.find? symbol = none :=
    free symbol (List.mem_map_of_mem (Table.mem_of_find?_eq_some known))
  simp [HolTerm.value, HolInterpretation.apply, unbound, known]

theorem value_call {symbol : Text} {arguments : List HolTerm}
    {values : List (CommonValue Element)}
    {constant : List (CommonValue Element) → Option (CommonValue Element)}
    (free : ConstantsFree environment)
    (known : holConstants.find? symbol = some constant)
    (evaluated : Evaluates reading environment arguments values) :
    (call symbol arguments).value reading environment = constant values := by
  have unbound : environment.find? symbol = none :=
    free symbol (List.mem_map_of_mem (Table.mem_of_find?_eq_some known))
  rw [call, HolTerm.value, valueAll_of_evaluates evaluated]
  simp [HolInterpretation.apply, unbound, known]

theorem combines_prefixed {symbol : Text}
    {constant : List (CommonValue Element) → Option (CommonValue Element)}
    (free : ConstantsFree environment)
    (known : holConstants.find? symbol = some constant) :
    Combines reading environment (.prefixed symbol) fun left right =>
      constant [left, right] :=
  fun _ _ _ _ left right =>
    value_call free known (.cons left (.cons right .nil))

/-! ## Nesting -/

section Nesting

variable {Value : Type} {inject : Value → CommonValue Element}
  {operation : Value → Value → Value} {fixity : Fixity}
  {combine : CommonValue Element → CommonValue Element →
  Option (CommonValue Element)}

/-- Nesting to the left combines values from the left. -/
theorem value_foldl (combines : Combines reading environment fixity combine)
    (combined : ∀ left right, combine (inject left) (inject right) =
      some (inject (operation left right)))
    {first : HolTerm} {value : Value}
    (head : first.value reading environment = some (inject value))
    {others : List HolTerm} {values : List Value}
    (tail : Evaluates reading environment others (values.map inject)) :
    (others.foldl (binary fixity) first).value reading environment =
      some (inject (values.foldl operation value)) := by
  induction values generalizing first value others with
  | nil =>
      obtain rfl : others = [] := by simpa [Evaluates] using tail
      exact head
  | cons next values inductionHypothesis =>
      obtain ⟨second, rest, secondValue, restValues, rfl⟩ :=
        List.forall₂_cons_right_iff.mp tail
      rw [List.foldl_cons, List.foldl_cons]
      apply inductionHypothesis _ restValues
      rw [combines first second _ _ head secondValue, combined]

/-- Nesting to the right combines values from the right. -/
theorem value_foldRight (combines : Combines reading environment fixity combine)
    (combined : ∀ left right, combine (inject left) (inject right) =
      some (inject (operation left right)))
    {first : HolTerm} {value : Value}
    (head : first.value reading environment = some (inject value))
    {others : List HolTerm} {values : List Value}
    (tail : Evaluates reading environment others (values.map inject)) :
    (foldRight fixity first others).value reading environment =
      some (inject (nestRight operation value values)) := by
  induction values generalizing first value others with
  | nil =>
      obtain rfl : others = [] := by simpa [Evaluates] using tail
      exact head
  | cons next values inductionHypothesis =>
      obtain ⟨second, rest, secondValue, restValues, rfl⟩ :=
        List.forall₂_cons_right_iff.mp tail
      rw [foldRight, nestRight,
        combines first _ _ _ head (inductionHypothesis secondValue restValues),
        combined]

end Nesting

/-! ## Chains and pairs -/

theorem forall_neighbours {Value : Type} (related : Value → Value → Prop)
    (first : Value) (others : List Value) :
    (∀ couple ∈ neighbours (first :: others), related couple.fst couple.snd) ↔
      (first :: others).IsChain related := by
  induction others generalizing first with
  | nil => simp [neighbours]
  | cons second others inductionHypothesis =>
      have tail := inductionHypothesis second
      simp only [neighbours, List.drop_succ_cons, List.drop_zero] at tail ⊢
      rw [List.zip_cons_cons, List.forall_mem_cons,
        List.isChain_cons_cons, tail]

theorem forall_pairs {Value : Type} (related : Value → Value → Prop)
    (values : List Value) :
    (∀ couple ∈ pairs values, related couple.fst couple.snd) ↔
      values.Pairwise related := by
  induction values with
  | nil => simp [pairs]
  | cons first others inductionHypothesis =>
      rw [pairs, List.forall_mem_append, List.forall_mem_map,
        inductionHypothesis, List.pairwise_cons]

/-- A conjunction is true if all its parts are. -/
theorem value_conjoin (free : ConstantsFree environment) {parts : List HolTerm}
    {truths : List Prop}
    (evaluated : Evaluates reading environment parts (truths.map .truth)) :
    (conjoin parts).value reading environment =
      some (.truth (∀ holds ∈ truths, holds)) := by
  match parts with
  | [] =>
      obtain rfl : truths = [] := by simpa [Evaluates] using evaluated
      have empty :
          (HolTerm.constant "True").value reading environment =
            some (.truth True) :=
        (value_constant free rfl).trans rfl
      simpa [conjoin, truth] using empty
  | [part] =>
      obtain ⟨_, _, head, tail, same⟩ := List.forall₂_cons_left_iff.mp evaluated
      obtain ⟨holds, rest, rfl, rfl, rfl⟩ := List.map_eq_cons_iff.mp same
      obtain rfl : rest = [] := by simpa using tail
      simpa only [conjoin, List.forall_mem_singleton] using head
  | first :: second :: others =>
      have values := valueAll_of_evaluates evaluated
      simp only [conjoin, HolTerm.value, values, Option.bind_eq_bind,
        Option.bind_some, CommonValue.mapM_truth?]
      rfl

section Couples

variable {Value : Type} {inject : Value → CommonValue Element}
  {related : Value → Value → Prop} {fixity : Fixity}
  {combine : CommonValue Element → CommonValue Element →
  Option (CommonValue Element)}

/-- Both components of each couple are evaluated. -/
def EvaluatesCouples (reading : HolInterpretation Element)
    (environment : Table (CommonValue Element))
    (inject : Value → CommonValue Element)
    (couples : List (HolTerm × HolTerm))
    (values : List (Value × Value)) : Prop :=
  List.Forall₂ (fun couple value =>
    couple.fst.value reading environment = some (inject value.fst) ∧
      couple.snd.value reading environment = some (inject value.snd))
        couples values

theorem evaluatesCouples_neighbours {arguments : List HolTerm}
    {values : List Value}
    (evaluated : Evaluates reading environment arguments (values.map inject)) :
    EvaluatesCouples reading environment inject (neighbours arguments)
      (neighbours values) := by
  rw [Evaluates, List.forall₂_map_right_iff] at evaluated
  induction evaluated with
  | nil => exact .nil
  | cons head tail inductionHypothesis =>
      cases tail with
      | nil => exact .nil
      | cons next rest => exact .cons ⟨head, next⟩ inductionHypothesis

theorem evaluatesCouples_pairs {arguments : List HolTerm} {values : List Value}
    (evaluated : Evaluates reading environment arguments (values.map inject)) :
    EvaluatesCouples reading environment inject (pairs arguments)
      (pairs values) := by
  rw [Evaluates, List.forall₂_map_right_iff] at evaluated
  induction evaluated with
  | nil => exact .nil
  | cons head tail inductionHypothesis =>
      apply List.rel_append _ inductionHypothesis
      rw [List.forall₂_map_left_iff, List.forall₂_map_right_iff]
      exact tail.imp fun _ _ later => ⟨head, later⟩

/-- A relation that is spelled for couples holds if all couples are related. -/
theorem value_holdsOf (free : ConstantsFree environment)
    (combines : Combines reading environment fixity combine)
    (combined : ∀ left right, combine (inject left) (inject right) =
      some (.truth (related left right)))
    {couples : List (HolTerm × HolTerm)} {values : List (Value × Value)}
    (evaluated : EvaluatesCouples reading environment inject couples values) :
    (conjoin (couples.map fun (left, right) => binary fixity left right)).value
        reading environment =
      some (.truth (∀ value ∈ values, related value.fst value.snd)) := by
  have parts : Evaluates reading environment
      (couples.map fun (left, right) => binary fixity left right)
      ((values.map fun value => related value.fst value.snd).map .truth) := by
    rw [Evaluates, List.forall₂_map_left_iff, List.map_map,
      List.forall₂_map_right_iff]
    refine evaluated.imp fun couple value both => ?_
    rw [combines couple.fst couple.snd _ _ both.1 both.2, combined]
    rfl
  rw [value_conjoin free parts, List.forall_mem_map]

end Couples

/-! ## Applications of operators -/

section Applications

variable {Value Image : Type} {inject : Value → CommonValue Element}
  {image : Image → CommonValue Element} {userSorts : List Text}
  {operator : Operator}
  {indices : List Nat} {sort : SmtSort} {spelling : Spelling}

/-- The application of an operator to terms is spelled, and the spelling has the
value of the application for all arguments with injected values. -/
def Preserves (inject : Value → CommonValue Element)
    (image : Image → CommonValue Element) (userSorts : List Text)
    (operator : Operator) (indices : List Nat) (sort : SmtSort)
    (terms : List HolTerm) : Prop :=
  ∃ translated, spell ⟨.default, userSorts⟩ operator indices terms sort =
    .ok translated ∧
    ∀ (reading : HolInterpretation Element) environment (values : List Value),
      ConstantsFree environment →
      Evaluates reading environment terms (values.map inject) →
      ∃ result, operator.meaning (values.map inject) = some (image result) ∧
        translated.value reading environment = some (image result)

/-- How a spelling evaluates two arguments. -/
def Connects (fixity : Fixity) (inject : Value → CommonValue Element)
    (image : Image → CommonValue Element)
    (operation : Value → Value → Image) : Prop :=
  ∀ (reading : HolInterpretation Element) environment,
    ConstantsFree environment →
    ∃ combine, Combines reading environment fixity combine ∧
      ∀ left right, combine (inject left) (inject right) =
        some (image (operation left right))

theorem spell_default (known : operator.defaultSpelling? = some spelling)
    (plain : ∀ template, spelling.fixity ≠ .templated template)
    (terms : List HolTerm) :
    spell ⟨.default, userSorts⟩ operator indices terms sort =
      spelled operator (plain? spelling terms) := by
  simp only [spell, OperatorTable.default, known, SpellingEntry.spelling?]

theorem evaluates_cons {first : HolTerm} {others : List HolTerm}
    {values : List Value}
    (evaluated : Evaluates reading environment (first :: others)
      (values.map inject)) :
    ∃ value rest, values = value :: rest ∧
      first.value reading environment = some (inject value) ∧
      Evaluates reading environment others (rest.map inject) := by
  rw [Evaluates, List.forall₂_map_right_iff, List.forall₂_cons_left_iff]
    at evaluated
  obtain ⟨value, rest, head, tail, rfl⟩ := evaluated
  exact ⟨value, rest, rfl, head, List.forall₂_map_right_iff.mpr tail⟩

theorem evaluates_nil {values : List Value}
    (evaluated : Evaluates reading environment [] (values.map inject)) :
    values = [] := by
  simpa [Evaluates] using evaluated

/-- An infix operator with one argument stands for the argument. -/
theorem preserves_alone {symbol : Text} {associativity : Option Associativity}
    (known : operator.defaultSpelling? = some (.infixed symbol associativity))
    (meaning : ∀ value, operator.meaning [inject value] = some (inject value))
    (term : HolTerm) :
    Preserves inject inject userSorts operator indices sort [term] := by
  refine ⟨term, spell_default known (by simp [Spelling.infixed]) [term], ?_⟩
  · intro reading environment values _ evaluated
    obtain ⟨value, rest, rfl, head, tail⟩ := evaluates_cons evaluated
    obtain rfl := evaluates_nil tail
    exact ⟨value, meaning value, head⟩

/-- A constant with one argument. -/
theorem preserves_single {symbol : Text} {operation : Value → Image}
    {constant : List (CommonValue Element) → Option (CommonValue Element)}
    (shape : ∀ term, spell ⟨.default, userSorts⟩ operator indices [term] sort =
      .ok (call symbol [term]))
    (known : holConstants.find? symbol = some constant)
    (applied : ∀ value, constant [inject value] =
      some (image (operation value)))
    (meaning : ∀ value, operator.meaning [inject value] =
      some (image (operation value)))
    (term : HolTerm) :
    Preserves inject image userSorts operator indices sort [term] := by
  refine ⟨_, shape term, ?_⟩
  intro reading environment values free evaluated
  obtain ⟨value, rest, rfl, head, tail⟩ := evaluates_cons evaluated
  obtain rfl := evaluates_nil tail
  refine ⟨operation value, meaning value, ?_⟩
  rw [value_call free known (.cons head .nil), applied]

section Two

variable {operation : Value → Value → Value} {first second : HolTerm}
  {others : List HolTerm}

variable (operation) in
/-- An operator that associates to the left has the value of its fold. -/
theorem preserves_left (known : operator.defaultSpelling? = some spelling)
    (plain : ∀ template, spelling.fixity ≠ .templated template)
    (shape : ∀ first others, several spelling first others =
      others.foldl (binary spelling.fixity) first)
    (connects : Connects spelling.fixity inject inject operation)
    (meaning : ∀ value next rest,
      operator.meaning ((value :: next :: rest).map inject) =
      some (inject ((next :: rest).foldl operation value))) :
    Preserves inject inject userSorts operator indices sort
      (first :: second :: others) := by
  refine ⟨several spelling first (second :: others), ?_, ?_⟩
  · rw [spell_default known plain]
    rfl
  · intro reading environment values free evaluated
    obtain ⟨combine, combines, combined⟩ := connects reading environment free
    obtain ⟨value, _, rfl, head, tail⟩ := evaluates_cons evaluated
    obtain ⟨next, rest, rfl, _, _⟩ := evaluates_cons tail
    refine ⟨_, meaning value next rest, ?_⟩
    rw [shape]
    exact value_foldl combines combined head tail

/-- An operator that associates to the right has the value of its fold. -/
theorem preserves_right {symbol : Text}
    (known : operator.defaultSpelling? = some (.infixed symbol (some .right)))
    (connects : Connects (.infixed symbol) inject inject operation)
    (meaning : ∀ value rest, operator.meaning ((value :: rest).map inject) =
      some (inject (nestRight operation value rest))) :
    Preserves inject inject userSorts operator indices sort
      (first :: second :: others) := by
  refine ⟨foldRight (.infixed symbol) first (second :: others), ?_, ?_⟩
  · rw [spell_default known (by simp [Spelling.infixed])]
    rfl
  · intro reading environment values free evaluated
    obtain ⟨combine, combines, combined⟩ := connects reading environment free
    obtain ⟨value, rest, rfl, head, tail⟩ := evaluates_cons evaluated
    exact ⟨_, meaning value rest, value_foldRight combines combined head tail⟩

variable {related : Value → Value → Prop}

/-- A chained operator says that all neighbours are related. -/
theorem preserves_chained {symbol : Text}
    (known : operator.defaultSpelling? = some (.chained symbol))
    (connects : Connects (.infixed symbol) inject (.truth : Prop →
      CommonValue Element) related)
    (meaning : ∀ values : List Value, operator.meaning (values.map inject) =
      some (.truth (values.IsChain related))) :
    Preserves inject (.truth : Prop → CommonValue Element) userSorts operator
      indices sort (first :: second :: others) := by
  refine ⟨several (.chained symbol) first (second :: others), ?_, ?_⟩
  · rw [spell_default known (by simp [Spelling.chained, Spelling.infixed])]
    rfl
  · intro reading environment values free evaluated
    obtain ⟨combine, combines, combined⟩ := connects reading environment free
    refine ⟨_, meaning values, ?_⟩
    obtain ⟨value, rest, rfl, _, _⟩ := evaluates_cons evaluated
    rw [← forall_neighbours]
    exact value_holdsOf free combines combined
      (evaluatesCouples_neighbours evaluated)

/-- A pairwise operator says that all pairs are related. -/
theorem preserves_pairwise {symbol : Text}
    (known : operator.defaultSpelling? =
      some { Spelling.infixed symbol none with pairwise := true })
    (connects : Connects (.infixed symbol) inject (.truth : Prop →
      CommonValue Element) related)
    (meaning : ∀ values : List Value, operator.meaning (values.map inject) =
      some (.truth (values.Pairwise related))) :
    Preserves inject (.truth : Prop → CommonValue Element) userSorts operator
      indices sort (first :: second :: others) := by
  refine ⟨several { Spelling.infixed symbol none with pairwise := true } first
    (second :: others), ?_, ?_⟩
  · rw [spell_default known (by simp [Spelling.infixed])]
    rfl
  · intro reading environment values free evaluated
    obtain ⟨combine, combines, combined⟩ := connects reading environment free
    refine ⟨_, meaning values, ?_⟩
    rw [← forall_pairs]
    exact value_holdsOf free combines combined
      (evaluatesCouples_pairs evaluated)

end Two

variable {terms : List HolTerm}

/-- An infix operator that is nested to the right, with any positive number of
arguments. -/
theorem preserves_rightNested {symbol : Text}
    {operation : Value → Value → Value}
    (known : operator.defaultSpelling? = some (.infixed symbol (some .right)))
    (connects : Connects (.infixed symbol) inject inject operation)
    (meaning : ∀ first others, operator.meaning ((first :: others).map inject) =
      some (inject (nestRight operation first others)))
    (nonempty : terms ≠ []) :
    Preserves inject inject userSorts operator indices sort terms := by
  match terms with
  | [] => exact absurd rfl nonempty
  | [term] => exact preserves_alone known (fun value => meaning value []) term
  | first :: second :: others => exact preserves_right known connects meaning

/-- An infix operator that is nested to the left, with any positive number of
arguments. -/
theorem preserves_leftNested {symbol : Text} {operation : Value → Value → Value}
    (known : operator.defaultSpelling? = some (.infixed symbol (some .left)))
    (connects : Connects (.infixed symbol) inject inject operation)
    (meaning : ∀ first others, operator.meaning ((first :: others).map inject) =
      some (inject (others.foldl operation first)))
    (nonempty : terms ≠ []) :
    Preserves inject inject userSorts operator indices sort terms := by
  match terms with
  | [] => exact absurd rfl nonempty
  | [term] => exact preserves_alone known (fun value => meaning value []) term
  | first :: second :: others =>
      exact preserves_left operation known (by simp [Spelling.infixed])
        (fun _ _ => rfl) connects
        fun value next rest => meaning value (next :: rest)

/-! ## Core -/

theorem nestRight_and (first : Prop) (others : List Prop) :
    nestRight And first others ↔ ∀ holds ∈ first :: others, holds := by
  induction others generalizing first with
  | nil => rw [nestRight, List.forall_mem_singleton]
  | cons next others inductionHypothesis =>
      rw [nestRight, inductionHypothesis, List.forall_mem_cons,
        List.forall_mem_cons, List.forall_mem_cons]

theorem nestRight_or (first : Prop) (others : List Prop) :
    nestRight Or first others ↔ ∃ holds ∈ first :: others, holds := by
  induction others generalizing first with
  | nil => rw [nestRight, List.exists_mem_cons_iff]; simp
  | cons next others inductionHypothesis =>
      rw [nestRight, inductionHypothesis, List.exists_mem_cons_iff,
        List.exists_mem_cons_iff, List.exists_mem_cons_iff]

theorem truth_congr {left right : Prop} (same : left ↔ right) :
    (.truth left : CommonValue Element) = .truth right :=
  congrArg _ (propext same)

abbrev ofTruth : Prop → CommonValue Element :=
  .truth

abbrev ofNumber : Int → CommonValue Element :=
  .number

theorem preserves_negation (term : HolTerm) :
    Preserves (ofTruth : Prop → CommonValue Element) ofTruth userSorts .negation
      indices sort
      [term] :=
  preserves_single (fun _ => rfl) rfl (fun _ => rfl) (fun _ => rfl) term

theorem preserves_conjunction (nonempty : terms ≠ []) :
    Preserves (ofTruth : Prop → CommonValue Element) ofTruth userSorts
      .conjunction indices sort
      terms := by
  refine preserves_rightNested
    rfl (fun _ _ _ => ⟨_, combines_infixed rfl, fun _ _ => rfl⟩) ?_ nonempty
  intro first others
  rw [Operator.meaning, Operator.onTruths, CommonValue.mapM_truth?]
  exact congrArg some (truth_congr (nestRight_and first others).symm)

theorem preserves_disjunction (nonempty : terms ≠ []) :
    Preserves (ofTruth : Prop → CommonValue Element) ofTruth userSorts
      .disjunction indices sort
      terms := by
  refine preserves_rightNested
    rfl (fun _ _ _ => ⟨_, combines_infixed rfl, fun _ _ => rfl⟩) ?_ nonempty
  intro first others
  rw [Operator.meaning, Operator.onTruths, CommonValue.mapM_truth?]
  exact congrArg some (truth_congr (nestRight_or first others).symm)

theorem preserves_implication (first second : HolTerm) (others : List HolTerm) :
    Preserves (ofTruth : Prop → CommonValue Element) ofTruth userSorts
      .implication indices sort (first :: second :: others) := by
  apply preserves_right
    rfl (fun _ _ _ => ⟨_, combines_infixed rfl, fun _ _ => rfl⟩)
  intro value rest
  rw [Operator.meaning, Operator.onTruths, CommonValue.mapM_truth?]
  rfl

theorem preserves_exclusiveOr (first second : HolTerm) (others : List HolTerm) :
    Preserves (ofTruth : Prop → CommonValue Element) ofTruth userSorts
      .exclusiveOr indices sort (first :: second :: others) := by
  refine preserves_left
    (fun left right => ¬(left ↔ right)) rfl (by simp [Spelling.infixed])
    (fun _ _ => rfl) ?_ ?_
  · intro reading environment _
    refine ⟨_, combines_infixed rfl, ?_⟩
    intro left right
    have different : (.truth left : CommonValue Element) ≠ .truth right ↔
        ¬(left ↔ right) := by
      simp
    exact congrArg some (truth_congr different)
  · intro value next rest
    rw [Operator.meaning, Operator.onTruths, CommonValue.mapM_truth?]
    rfl

theorem preserves_equality (first second : HolTerm) (others : List HolTerm) :
    Preserves (id : CommonValue Element → CommonValue Element) ofTruth userSorts
      .equality indices sort (first :: second :: others) :=
  preserves_chained rfl (fun _ _ _ => ⟨_, combines_infixed rfl, fun _ _ => rfl⟩)
    fun values => by
    rw [List.map_id]
    rfl

theorem preserves_distinctness (first second : HolTerm)
    (others : List HolTerm) :
    Preserves (id : CommonValue Element → CommonValue Element) ofTruth userSorts
      .distinctness indices sort (first :: second :: others) :=
  preserves_pairwise
    rfl (fun _ _ _ => ⟨_, combines_infixed rfl, fun _ _ => rfl⟩)
    fun values => by
    rw [List.map_id]
    rfl

theorem preserves_conditional {type : HolType} {indexType : Option HolType}
    (typed : sort.toHol userSorts = .ok type)
    (indexed : indexType? ⟨.default, userSorts⟩ sort = .ok indexType)
    (test first second : HolTerm) :
    spell ⟨.default, userSorts⟩ .conditional indices
        [test, first, second] sort =
      .ok (.conditional test first second) := by
  have spelling : (OperatorTable.default .conditional).spelling? =
      some (.templated .conditional) := rfl
  simp only [spell, spelling, Spelling.templated, typed, indexed,
    Outcome.ok_bind]
  rfl

/-! ## Ints -/

theorem quotient_eq_ediv (dividend divisor : Int) :
    Helper.quotient dividend divisor = dividend / divisor := by
  unfold Helper.quotient
  by_cases nonnegative : 0 ≤ divisor
  · rw [if_pos nonnegative, Int.fdiv_eq_ediv_of_nonneg _ nonnegative]
  · rw [if_neg nonnegative, Int.fdiv_eq_ediv_of_nonneg _ (by omega),
      Int.ediv_neg, Int.neg_neg]

theorem remainder_eq_emod (dividend divisor : Int) :
    Helper.remainder dividend divisor = dividend % divisor := by
  rw [Helper.remainder, quotient_eq_ediv, Int.emod_def]

theorem preserves_addition (nonempty : terms ≠ []) :
    Preserves (ofNumber : Int → CommonValue Element) ofNumber userSorts
      .addition indices sort
      terms := by
  refine preserves_leftNested
    rfl (fun _ _ _ => ⟨_, combines_infixed rfl, fun _ _ => rfl⟩) ?_ nonempty
  intro first others
  rw [Operator.meaning, Operator.onNumbers, CommonValue.mapM_number?]
  rfl

theorem preserves_multiplication (nonempty : terms ≠ []) :
    Preserves (ofNumber : Int → CommonValue Element) ofNumber userSorts
      .multiplication indices sort terms := by
  refine preserves_leftNested
    rfl (fun _ _ _ => ⟨_, combines_infixed rfl, fun _ _ => rfl⟩) ?_ nonempty
  intro first others
  rw [Operator.meaning, Operator.onNumbers, CommonValue.mapM_number?]
  rfl

theorem preserves_subtraction (nonempty : terms ≠ []) :
    Preserves (ofNumber : Int → CommonValue Element) ofNumber userSorts
      .subtraction indices sort
      terms := by
  match terms with
  | [] => exact absurd rfl nonempty
  | [term] =>
    exact preserves_single (fun _ => rfl) rfl (fun _ => rfl) (fun _ => rfl) term
  | first :: second :: others =>
      refine preserves_left _ rfl (by simp [Spelling.infixed]) (fun _ _ => rfl)
        (fun _ _ _ => ⟨_, combines_infixed rfl, fun _ _ => rfl⟩) ?_
      intro value next rest
      rw [Operator.meaning, Operator.onNumbers, CommonValue.mapM_number?]
      rfl

/-- Integer division is spelled with a helper that agrees with it for every
divisor. -/
theorem preserves_integerDivision (first second : HolTerm)
    (others : List HolTerm) :
    Preserves (ofNumber : Int → CommonValue Element) ofNumber userSorts
      .integerDivision indices sort (first :: second :: others) := by
  refine preserves_left
    (· / ·) rfl (by simp [Spelling.helped, Spelling.prefixed])
    (fun _ _ => rfl) ?_ ?_
  · intro reading environment free
    refine ⟨_, combines_prefixed free rfl, ?_⟩
    intro left right
    exact congrArg some (congrArg _ (quotient_eq_ediv left right))
  · intro value next rest
    rw [Operator.meaning, Operator.onNumbers, CommonValue.mapM_number?]
    rfl

theorem preserves_modulus (first second : HolTerm) :
    Preserves (ofNumber : Int → CommonValue Element) ofNumber userSorts .modulus
      indices sort [first, second] := by
  refine ⟨call Helper.modulus.name [first, second], rfl, ?_⟩
  intro reading environment values free evaluated
  obtain ⟨dividend, _, rfl, head, tail⟩ := evaluates_cons evaluated
  obtain ⟨divisor, rest, rfl, next, empty⟩ := evaluates_cons tail
  obtain rfl := evaluates_nil empty
  refine ⟨dividend % divisor, rfl, ?_⟩
  rw [value_call free rfl (.cons head (.cons next .nil)), ← remainder_eq_emod]

theorem preserves_absolute (term : HolTerm) :
    Preserves (ofNumber : Int → CommonValue Element) ofNumber userSorts
      .absolute indices sort
      [term] :=
  preserves_single (fun _ => rfl) rfl (fun _ => rfl) (fun _ => rfl) term

theorem preserves_comparison {symbol : Text} {related : Int → Int → Prop}
    (known : operator.defaultSpelling? = some (.chained symbol))
    (connects : Connects (.infixed symbol) (ofNumber : Int →
      CommonValue Element) ofTruth related)
    (meaning : ∀ values : List (CommonValue Element),
      operator.meaning values = Operator.onNeighbours values related)
    (first second : HolTerm) (others : List HolTerm) :
    Preserves (ofNumber : Int → CommonValue Element) ofTruth userSorts operator
      indices sort (first :: second :: others) :=
  preserves_chained known connects fun values => by
    rw [meaning, Operator.onNeighbours, CommonValue.mapM_number?]
    rfl

end Applications

end Translation

end ModelAudit
