import ModelAudit.Proofs.Outcome
import ModelAudit.Script.Session

/-!
# Faults that are reported

Reading rejects a text with a fault that says what is wrong with it. Two faults
are none of this kind: the program breaks off at an empty list in the place of a
qualified name, and at a digit of a bit-vector constant that no decimal system
has. Only terms can lead there. What reads symbols, sorts and the parts of
commands around terms always answers.
-/

namespace ModelAudit

/-- Whether the fault says that a text is not well formed, not well sorted or
not supported. -/
def Fault.isRejection : Fault → Bool
  | malformed _ _ | undeclared _ _ | undeclaredSort _ _ | mismatch _ _
  | noModel _
  | conflict _ _ | unsupported _ => true
  | emptyIdentifier | digitWithoutValue | noFormula => false

/-- The computation returns a value or rejects. -/
def Answers {Value : Type} (computed : Except Fault Value) : Prop :=
  ∀ fault, computed = .error fault → fault.isRejection = true

section Answers

variable {Value Image : Type} {computed : Except Fault Value}

@[simp]
theorem answers_ok (value : Value) : Answers (.ok value) := by
  rintro fault ⟨⟩

@[simp]
theorem answers_pure (value : Value) :
    Answers (pure value : Except Fault Value) :=
  answers_ok value

@[simp]
theorem answers_error {fault : Fault} :
    Answers (.error fault : Except Fault Value) ↔ fault.isRejection = true := by
  constructor
  · exact fun answers => answers fault rfl
  · rintro rejection _ ⟨⟩
    exact rejection

@[simp]
theorem answers_expected (what : Text) (expression : SExpr) :
    Answers (expected what expression : Except Fault Value) := by
  simp [expected, Fault.isRejection]

@[simp]
theorem answers_misshapen (what : Text) (expression : SExpr) :
    Answers (misshapen what expression : Except Fault Value) := by
  simp [misshapen, Fault.isRejection]

@[simp]
theorem answers_unsupported (construct detail : Text) :
    Answers (unsupported construct detail : Except Fault Value) := by
  simp [unsupported, Fault.isRejection]

@[simp]
theorem answers_mismatch (cause : MismatchCause) (expression : SExpr) :
    Answers (mismatch cause expression : Except Fault Value) := by
  simp [mismatch, Fault.isRejection]

@[simp]
theorem answers_wrongCount (command : Command) (count : Nat) :
    Answers (command.wrongCount count : Except Fault Value) := by
  simp [Command.wrongCount, Fault.isRejection]

theorem Answers.bind {next : Value → Except Fault Image}
    (first : Answers computed) (second : ∀ value, Answers (next value)) :
    Answers (computed >>= next) := by
  intro fault failed
  rcases Outcome.bind_eq_error.mp failed with failed | ⟨value, _, failed⟩
  · exact first fault failed
  · exact second value fault failed

theorem answers_mapM {image : Value → Except Fault Image} {values : List Value}
    (each : ∀ value ∈ values, Answers (image value)) :
    Answers (values.mapM image) := by
  intro fault failed
  obtain ⟨value, member, failed⟩ := Outcome.exists_of_mapM_eq_error failed
  exact each value member fault failed

end Answers

/-! ## Symbols and sorts -/

section Sorts

variable (symbols : SymbolTable) (placeholders : List Text)

theorem readSymbol_answers (what : Text) (expression : SExpr) :
    Answers (readSymbol what expression) := by
  unfold readSymbol
  split <;> simp

theorem readNumeral_answers (expression : SExpr) :
    Answers (readNumeral expression) := by
  unfold readNumeral
  split <;> simp

theorem expandAlias_answers (name : Text) (sortAlias : SortAlias)
    (arguments : List SmtSort) (expression : SExpr) :
    Answers (expandAlias name sortAlias arguments expression) := by
  unfold expandAlias
  split <;> simp

theorem sortOfName_answers (name : Text) (expression : SExpr) :
    Answers (sortOfName symbols placeholders name expression) := by
  unfold sortOfName
  split
  · simp
  split
  · exact expandAlias_answers _ _ _ _
  split
  · simp
  split <;> simp [Fault.isRejection]

theorem indexedSort_answers (items : List SExpr) (expression : SExpr) :
    Answers (indexedSort items expression) := by
  unfold indexedSort
  split
  · split
    · simp
    · refine (answers_mapM fun item _ => readNumeral_answers item).bind
        fun indices => ?_
      split <;> simp
  · simp

theorem appliedSort_answers (name : Text) (arguments : List SmtSort)
    (expression : SExpr) :
    Answers (appliedSort symbols name arguments expression) := by
  unfold appliedSort
  split
  · exact expandAlias_answers _ _ _ _
  · split <;> simp

mutual

/-- Reading a sort never breaks off. -/
theorem readSort_answers : (expression : SExpr) →
    Answers (readSort symbols placeholders expression)
  | .atom leaf position => by
      rw [readSort.eq_def]
      dsimp only
      split
      · exact sortOfName_answers _ _ _ _
      · simp
  | .list [] position => by
      rw [readSort]
      simp
  | .list (head :: items) position => by
      rw [readSort]
      split
      · exact indexedSort_answers _ _
      · exact (readSymbol_answers _ _).bind fun name =>
          (readSorts_answers items).bind fun arguments =>
            appliedSort_answers _ _ _ _

theorem readSorts_answers : (expressions : List SExpr) →
    Answers (readSorts symbols placeholders expressions)
  | [] => by
      rw [readSorts]
      simp
  | expression :: expressions => by
      rw [readSorts]
      exact (readSort_answers expression).bind fun sort =>
        (readSorts_answers expressions).bind fun sorts => answers_pure _

end

theorem readSortedName_answers (expression : SExpr) :
    Answers (readSortedName symbols expression) := by
  unfold readSortedName
  split
  · exact (readSymbol_answers _ _).bind fun name =>
      (readSort_answers symbols [] _).bind fun sort => answers_pure _
  · simp

theorem readSortedNames_answers (items : List SExpr) :
    Answers (items.mapM (readSortedName symbols)) :=
  answers_mapM fun item _ => readSortedName_answers symbols item

end Sorts

/-! ## Parts of terms -/

section Terms

variable (symbols : SymbolTable) (scope : Scope)

theorem readReference_answers (name : Text) (expression : SExpr) :
    Answers (readReference symbols scope name expression) := by
  unfold readReference
  split
  · simp
  split
  · simp
  split
  · split <;> simp
  · split <;> simp [Fault.isRejection]

theorem readAtom_answers (leaf : Atom) (position : Position) :
    Answers (readAtom symbols scope leaf position) := by
  unfold readAtom
  split
  case h_6 => exact readReference_answers _ _ _ _
  all_goals simp [Fault.isRejection]

theorem readIndexedName_answers (items : List SExpr) (expression : SExpr) :
    Answers (readIndexedName items expression) := by
  unfold readIndexedName
  split
  · split
    · simp
    split
    · simp
    · exact (answers_mapM fun item _ => readNumeral_answers item).bind fun _ =>
        answers_pure _
  · simp

theorem readFunctionArray_answers (function : SExpr) :
    Answers (readFunctionArray symbols function) := by
  refine (readSymbol_answers _ _).bind fun name => ?_
  split
  · simp [Fault.isRejection]
  · split <;> simp

theorem readQualified_answers (items : List SExpr) (expression : SExpr) :
    Answers (readQualified symbols scope items expression) := by
  unfold readQualified
  split
  · split
    · simp
    · refine (readSort_answers symbols [] _).bind fun stated =>
        (readReference_answers _ _ _ _).bind fun term => ?_
      split <;> simp
  · simp

theorem requireArguments_answers (name : Text) (expression : SExpr)
    (place : Nat) (arguments expected : List SmtSort) :
    Answers (requireArguments name expression place arguments expected) := by
  induction arguments generalizing place expected with
  | nil => simp [requireArguments]
  | cons got arguments inductionHypothesis =>
      cases expected with
      | nil => simp [requireArguments]
      | cons wanted expected =>
          rw [requireArguments]
          split
          · exact inductionHypothesis _ _
          · simp

theorem applyConstantArray_answers (stated : SmtSort) (arguments : List Term)
    (expression : SExpr) :
    Answers (applyConstantArray stated arguments expression) := by
  unfold applyConstantArray
  split
  · split <;> simp
  · simp

theorem resolveHead_answers (name : Text) (indices : List Nat)
    (arguments : List SmtSort) (expression : SExpr) (headPlace : Place) :
    Answers (resolveHead symbols name indices arguments expression
      headPlace) := by
  unfold resolveHead
  split
  · split
    · exact (requireArguments_answers _ _ _ _ _).bind fun _ => answers_pure _
    · simp
  · split
    · split <;> simp
    · simp [Fault.isRejection]

/-- Applying a name to terms never breaks off. -/
theorem applyName_answers (name : Text) (indices : List Nat)
    (stated : Option SmtSort) (arguments : List Term) (expression : SExpr)
    (headPlace : Place) :
    Answers (applyName symbols scope name indices stated arguments expression
      headPlace) := by
  unfold applyName
  split
  · simp
  split
  · exact applyConstantArray_answers _ _ _
  · refine (resolveHead_answers _ _ _ _ _ _).bind fun ⟨head, sort⟩ => ?_
    dsimp only
    split <;> simp

theorem readAttributes_answers : (expressions : List SExpr) →
  Answers (readAttributes expressions)
  | [] => by simp [readAttributes]
  | .atom (.keyword key) position :: rest => by
      rw [readAttributes.eq_def]
      dsimp only
      split
      · simp
      · split
        · exact (readAttributes_answers _).bind fun _ => answers_pure _
        · exact (readAttributes_answers _).bind fun _ => answers_pure _
  | .list _ _ :: _ => by simp [readAttributes]
  | .atom (.numeral _) _ :: _ | .atom (.decimal _) _ :: _
  | .atom (.hexadecimal _) _ :: _
  | .atom (.binary _) _ :: _ | .atom (.string _) _ :: _
  | .atom (.symbol _ _) _ :: _ => by
      simp [readAttributes]

end Terms

/-! ## Parts of commands -/

namespace Command

variable (symbols : SymbolTable) (command : Command)

theorem ofExpression_answers (expression : SExpr) :
    Answers (ofExpression expression) := by
  unfold ofExpression
  split
  · simp
  · split <;> simp [Fault.isRejection]

theorem parameterItems_answers (head what : Text) (expression : SExpr) :
    Answers (parameterItems head what expression) := by
  unfold parameterItems
  split <;> simp [Fault.isRejection]

theorem declareSymbol_answers (nameExpression : SExpr)
    (arguments : List SmtSort) (result : SmtSort) (kind : DeclarationKind) :
    Answers (declareSymbol symbols nameExpression arguments result kind) := by
  refine (readSymbol_answers _ _).bind fun name => ?_
  split
  · simp [Fault.isRejection]
  · dsimp only
    split <;> simp

/-- Declaring a sort never breaks off. -/
theorem declareSort_answers : Answers (command.declareSort symbols) := by
  unfold declareSort
  have arity (nameExpression : SExpr) (count : Except Fault Nat)
      (counted : Answers count) :
      Answers (do
        let name ← readSymbol "sort name" nameExpression
        let number ← count
        if number = 0 then return symbols.declareSort name 0
        else
          (unsupported "declare-sort"
            ("parametric sort " ++ name ++ " of arity " ++ Text.decimal
              number) :
              Except Fault SymbolTable)) := by
    refine (readSymbol_answers _ _).bind fun name =>
      counted.bind fun number => ?_
    split <;> simp
  split
  · exact arity _ _ (answers_ok 0)
  · exact arity _ _ (readNumeral_answers _)
  · simp [Fault.isRejection]

theorem defineSort_answers : Answers (command.defineSort symbols) := by
  unfold defineSort
  split
  · exact (readSymbol_answers _ _).bind fun name =>
      (parameterItems_answers _ _ _).bind fun items =>
      (answers_mapM fun item _ => readSymbol_answers _ item).bind fun params =>
        (readSort_answers symbols params _).bind fun body => answers_pure _
  · simp

theorem declaration?_answers
    {declared : Except Fault (Declaration × SymbolTable)}
    (declares : command.declaration? symbols = some declared) :
    Answers declared := by
  unfold declaration? at declares
  split at declares
  · obtain rfl := Option.some.inj declares
    unfold declareFunction
    split
    · exact (parameterItems_answers _ _ _).bind fun items =>
        (readSorts_answers symbols [] items).bind fun arguments =>
          (readSort_answers symbols [] _).bind fun result =>
            declareSymbol_answers _ _ _ _ _
    · simp
  split at declares
  · obtain rfl := Option.some.inj declares
    unfold declareConstant
    split
    · exact (readSort_answers symbols [] _).bind fun sort =>
        declareSymbol_answers _ _ _ _ _
    · simp
  · cases declares

theorem functionHeader_answers : Answers (functionHeader symbols command) := by
  unfold functionHeader
  split
  · exact (parameterItems_answers _ _ _).bind fun items =>
      (readSortedNames_answers symbols items).bind fun params =>
        (readSort_answers symbols [] _).bind fun result => answers_pure _
  · simp

theorem registerFunction_answers : Answers (command.registerFunction symbols) :=
  (functionHeader_answers symbols command).bind fun _ =>
    (declareSymbol_answers _ _ _ _ _).bind fun _ => answers_pure _

end Command

end ModelAudit
