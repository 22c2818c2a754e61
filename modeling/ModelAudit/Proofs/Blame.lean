import ModelAudit.Proofs.SymbolGrowth
import ModelAudit.Proofs.TokenPlaces

/-!
# What a fault blames

A fault names the place of an expression, and its message is about this
expression: it quotes its text, names a symbol in it, or tells its sort. This is
so for every fault of every reader, and the expression is always a part of what
the reader was given.
-/

namespace ModelAudit

namespace SExpr

/-- A symbol of this name occurs in the expression. -/
def Mentions (expression : SExpr) (name : Text) : Prop :=
  ∃ part : SExpr, part.PartOf expression ∧ part.symbol? = some name

variable {expression item : SExpr} {items : List SExpr} {position : Position}
  {name : Text}

theorem mentions_of_symbol? (named : expression.symbol? = some name) :
    expression.Mentions name :=
  ⟨expression, .whole, named⟩

theorem mentions_list (mentions : item.Mentions name) (member : item ∈ items) :
    (SExpr.list items position).Mentions name := by
  obtain ⟨part, within, named⟩ := mentions
  exact ⟨part, .item member within, named⟩

theorem mentions_symbol (quoted : Bool) (position : Position) :
    (SExpr.atom (.symbol name quoted) position).Mentions name :=
  mentions_of_symbol? rfl

end SExpr

/-- The expression is what the cause is about. -/
def MalformedCause.Suits : MalformedCause → SExpr → Prop
  | reading _, _ => False
  | expected _ got, expression | misshapen _ got, expression
  | unexpectedTerm got, expression =>
    expression.text = got
  | headless, expression =>
    expression.isList = true ∧ expression.headSymbol? = none
  | argumentCount command _, expression => expression.headSymbol? = some command
  | sortDeclaration, expression => expression.headSymbol? = some "declare-sort"
  | parameterList _ _, expression => expression.isList = false
  | builtinName name, expression => expression.symbol? = some name
  | emptyApplication, expression => ∃ position, expression = .list [] position
  | unexpectedToken got, expression =>
    ∃ position, expression = .atom (.keyword got) position
  | repeatedBinding name, expression =>
    ∃ nameExpression value position,
      expression = .list [nameExpression, value] position ∧
      nameExpression.symbol? = some name
  | letShape, expression => expression.headSymbol? = some "let"
  | quantifierShape quantifier, expression =>
    expression.headSymbol? = some quantifier.name
  | annotationShape, expression => expression.headSymbol? = some "!"

/-- The expression is a term of the sort. -/
def SExpr.IsTermOf (expression : SExpr) (sort : SmtSort) : Prop :=
  ∃ symbols scope term, readTerm symbols scope expression = .ok term ∧
    term.sort = sort

def MismatchCause.Suits : MismatchCause → SExpr → Prop
  | assertion got, expression | definitionBody _ got _, expression
  | quantifierBody got, expression => expression.IsTermOf got
  | redeclared _ later, expression => expression.symbol? = some later.name
  | zeroWidth, expression => readNumeral expression = .ok 0
  | aliasArguments name _, expression | indexedConstant name, expression
  | argumentCount name _ _, expression | missingArguments name, expression
  | qualification name _ _, expression | appliedBinder name, expression
  | argument name _ _ _, expression => expression.Mentions name
  | constantArrayShape _, expression | constantArrayValue _ _, expression =>
    expression.Mentions Operator.constantArray.name
  | signature fault, expression =>
    ∃ (operator : Operator) (rule : SignatureRule) (arguments : List SmtSort)
      (indices : List Int),
      expression.Mentions operator.name ∧ operator.rule? = some rule ∧
        rule.resultSort operator arguments indices = .error fault

/-- The expression is what the fault is about. -/
def Fault.Suits : Fault → SExpr → Prop
  | malformed cause _, expression => cause.Suits expression
  | undeclared name _, expression => expression.Mentions name
  | undeclaredSort name _, expression => expression.symbol? = some name
  | mismatch cause _, expression => cause.Suits expression
  | conflict (.declares name) _, expression
  | conflict (.redefines name) _, expression =>
    expression.symbol? = some name
  | noModel _, _ | unsupported _, _ | emptyIdentifier, _ | digitWithoutValue, _
  | noFormula, _ =>
    False

/-- If the computation fails and names a place, some expression among these
stands there, and the fault is about it. -/
def Blames {Value : Type} (known : SExpr → Prop)
    (computed : Except Fault Value) : Prop :=
  ∀ fault, computed = .error fault → ∀ place, fault.place? = some place →
    ∃ expression, known expression ∧ expression.place = place ∧
      fault.Suits expression

/-- With a list all its items are among the expressions. -/
def ClosedUnderItems (known : SExpr → Prop) : Prop :=
  ∀ items position, known (.list items position) → ∀ item ∈ items, known item

section Blames

variable {Value Image : Type} {known : SExpr → Prop}
  {computed : Except Fault Value} {expression : SExpr}

theorem blames_ok (value : Value) : Blames known (.ok value) := by
  rintro fault ⟨⟩

theorem blames_of_suits {fault : Fault} (inside : known expression)
    (placed : fault.place? = some expression.place)
    (suits : fault.Suits expression) :
    Blames known (.error fault : Except Fault Value) := by
  rintro _ ⟨⟩ place found
  rw [placed] at found
  exact ⟨expression, inside, Option.some.inj found, suits⟩

/-- Without a place there is nothing to blame. -/
theorem blames_of_unplaced {fault : Fault} (unplaced : fault.place? = none) :
    Blames known (.error fault : Except Fault Value) := by
  rintro _ ⟨⟩ place found
  rw [unplaced] at found
  cases found

theorem blames_expected (inside : known expression) (what : Text) :
    Blames known (expected what expression : Except Fault Value) :=
  blames_of_suits inside rfl rfl

theorem blames_misshapen (inside : known expression) (what : Text) :
    Blames known (misshapen what expression : Except Fault Value) :=
  blames_of_suits inside rfl rfl

theorem blames_unsupported (construct detail : Text) :
    Blames known (unsupported construct detail : Except Fault Value) :=
  blames_of_unplaced rfl

theorem blames_mismatch {cause : MismatchCause} (inside : known expression)
    (suits : cause.Suits expression) :
    Blames known (mismatch cause expression : Except Fault Value) :=
  blames_of_suits inside rfl suits

/-- The next step may rely on the value that the first one has returned. -/
theorem Blames.bind {next : Value → Except Fault Image}
    (first : Blames known computed)
    (second : ∀ value, computed = .ok value → Blames known (next value)) :
    Blames known (computed >>= next) := by
  intro fault failed
  rcases Outcome.bind_eq_error.mp failed with failed | ⟨value, returned, failed⟩
  · exact first fault failed
  · exact second value returned fault failed

theorem blames_mapM {image : Value → Except Fault Image} {values : List Value}
    (each : ∀ value ∈ values, Blames known (image value)) :
    Blames known (values.mapM image) := by
  intro fault failed
  obtain ⟨value, member, failed⟩ := Outcome.exists_of_mapM_eq_error failed
  exact each value member fault failed

end Blames

/-! ## Symbols and sorts -/

section Sorts

variable {known : SExpr → Prop} (symbols : SymbolTable)
  (placeholders : List Text) {expression : SExpr}

theorem readSymbol_blames (inside : known expression) (what : Text) :
    Blames known (readSymbol what expression) := by
  unfold readSymbol
  split
  · exact blames_ok _
  · exact blames_expected inside _

theorem readNumeral_blames (inside : known expression) :
    Blames known (readNumeral expression) := by
  unfold readNumeral
  split
  · exact blames_ok _
  · exact blames_expected inside _

theorem expandAlias_blames (inside : known expression) {name : Text}
    (named : expression.Mentions name) (sortAlias : SortAlias)
    (arguments : List SmtSort) :
    Blames known (expandAlias name sortAlias arguments expression) := by
  unfold expandAlias
  split
  · exact blames_ok _
  · exact blames_mismatch inside named

theorem sortOfName_blames (inside : known expression) {name : Text}
    (named : expression.symbol? = some name) :
    Blames known (sortOfName symbols placeholders name expression) := by
  unfold sortOfName
  split
  · exact blames_ok _
  split
  · exact expandAlias_blames inside (SExpr.mentions_of_symbol? named) _ _
  split
  · exact blames_ok _
  split
  · exact blames_ok _
  · exact blames_of_suits inside rfl named

theorem readNumerals_blames {items : List SExpr}
    (inside : ∀ item ∈ items, known item) :
    Blames known (items.mapM readNumeral) :=
  blames_mapM fun item member => readNumeral_blames (inside item member)

theorem indexedSort_blames (inside : known expression) {items : List SExpr}
    (insideItems : ∀ item ∈ items, known item) :
    Blames known (indexedSort items expression) := by
  unfold indexedSort
  split
  · split
    · exact blames_misshapen inside _
    · refine (readNumerals_blames fun item member =>
        insideItems item (List.mem_cons_of_mem _ member)).bind fun indices _ =>
          ?_
      split
      · exact blames_ok _
      · exact blames_unsupported _ _
  · exact blames_misshapen inside _

theorem appliedSort_blames (inside : known expression) {name : Text}
    (named : expression.Mentions name) (arguments : List SmtSort) :
    Blames known (appliedSort symbols name arguments expression) := by
  unfold appliedSort
  split
  · exact expandAlias_blames inside named _ _
  split
  · exact blames_ok _
  · exact blames_unsupported _ _

mutual

/-- What a fault in a sort blames is the sort or a part of it. -/
theorem readSort_blames (closed : ClosedUnderItems known) :
    (expression : SExpr) →
    known expression → Blames known (readSort symbols placeholders expression)
  | .atom leaf position, inside => by
      rw [readSort.eq_def]
      dsimp only
      split
      · exact sortOfName_blames _ _ inside rfl
      · exact blames_expected inside _
  | .list [] position, inside => by
      rw [readSort]
      exact blames_expected inside _
  | .list (head :: items) position, inside => by
      have insideAll := closed _ _ inside
      have insideItems : ∀ item ∈ items, known item := fun item member =>
        insideAll item (List.mem_cons_of_mem _ member)
      rw [readSort]
      split
      · exact indexedSort_blames inside insideItems
      · refine (readSymbol_blames (insideAll head List.mem_cons_self) _).bind
          fun name named =>
          (readSorts_blames closed items insideItems).bind fun arguments _ => ?_
        have mentioned := SExpr.mentions_of_symbol? (readSymbol_eq_ok.mp named)
        exact appliedSort_blames _ inside
          (SExpr.mentions_list mentioned List.mem_cons_self) _

theorem readSorts_blames (closed : ClosedUnderItems known) :
    (expressions : List SExpr) →
    (∀ expression ∈ expressions, known expression) →
    Blames known (readSorts symbols placeholders expressions)
  | [], _ => by
      rw [readSorts]
      exact blames_ok _
  | expression :: expressions, inside => by
      rw [List.forall_mem_cons] at inside
      rw [readSorts]
      exact (readSort_blames closed expression inside.1).bind fun sort _ =>
        (readSorts_blames closed expressions inside.2).bind fun sorts _ =>
          blames_ok _

end

theorem readSortedName_blames (closed : ClosedUnderItems known)
    (inside : known expression) :
    Blames known (readSortedName symbols expression) := by
  unfold readSortedName
  split
  · next nameExpression sort position =>
    have insideAll := closed _ _ inside
    exact (readSymbol_blames (insideAll nameExpression (by simp)) _).bind
      fun name _ =>
      (readSort_blames symbols [] closed sort (insideAll sort (by simp))).bind
        fun _ _ =>
        blames_ok _
  · exact blames_expected inside _

theorem readSortedNames_blames (closed : ClosedUnderItems known)
    {items : List SExpr} (inside : ∀ item ∈ items, known item) :
    Blames known (items.mapM (readSortedName symbols)) :=
  blames_mapM fun item member =>
    readSortedName_blames symbols closed (inside item member)

end Sorts

/-! ## Terms -/

section Terms

variable {known : SExpr → Prop} (symbols : SymbolTable) (scope : Scope)
  {expression : SExpr}

theorem readReference_blames (inside : known expression) {name : Text}
    (named : expression.Mentions name) :
    Blames known (readReference symbols scope name expression) := by
  unfold readReference
  split
  · exact blames_ok _
  split
  · exact blames_ok _
  split
  · split
    · exact blames_ok _
    · exact blames_mismatch inside named
  · split
    · exact blames_mismatch inside named
    · exact blames_of_suits inside rfl named

theorem readAtom_blames {leaf : Atom} {position : Position}
    (inside : known (.atom leaf position)) :
    Blames known (readAtom symbols scope leaf position) := by
  cases leaf with
  | symbol name quoted =>
    exact readReference_blames _ _ inside (SExpr.mentions_symbol _ _)
  | keyword written => exact blames_of_suits inside rfl ⟨position, rfl⟩
  | numeral _ | decimal _ | hexadecimal _ | binary _ | string _ =>
    exact blames_ok _

theorem readIndexedName_blames (inside : known expression) {items : List SExpr}
    (insideItems : ∀ item ∈ items, known item) :
    Blames known (readIndexedName items expression) := by
  unfold readIndexedName
  split
  · split
    · exact blames_misshapen inside _
    split
    · exact blames_ok _
    · exact (readNumerals_blames fun item member =>
        insideItems item (List.mem_cons_of_mem _ member)).bind fun _ _ =>
          blames_ok _
  · exact blames_misshapen inside _

/-- The name of an indexed identifier is one of its items. -/
theorem exists_of_readIndexedName {items : List SExpr} {name : Text}
    {indices : List Nat}
    (read : readIndexedName items expression = .ok (name, indices)) :
    ∃ item ∈ items, item.symbol? = some name := by
  unfold readIndexedName at read
  split at read
  · next head _ _ =>
    split at read
    · cases read
    · next found =>
      refine ⟨head, List.mem_cons_self, ?_⟩
      split at read
      · rw [found, (Prod.mk.inj (Except.ok.inj read)).1]
      · obtain ⟨_, _, read⟩ := Outcome.bind_eq_ok.mp read
        rw [found, (Prod.mk.inj (Except.ok.inj read)).1]
  · cases read

/-- Behind the name of an indexed identifier all may rely on the name's standing
in it. -/
theorem blames_of_indexedName {Value : Type} {mark : SExpr} {items : List SExpr}
    {position : Position} {next : Text × List Nat → Except Fault Value}
    (inside : known (.list (mark :: items) position))
    (insideItems : ∀ item ∈ items, known item)
    (following : ∀ name indices,
      (SExpr.list (mark :: items) position).Mentions name →
      Blames known (next (name, indices))) :
    Blames known
      (readIndexedName items (.list (mark :: items) position) >>= next) := by
  refine (readIndexedName_blames inside insideItems).bind fun result read => ?_
  obtain ⟨name, indices⟩ := result
  obtain ⟨item, member, named⟩ := exists_of_readIndexedName read
  exact following name indices
    (SExpr.mentions_list (SExpr.mentions_of_symbol? named)
      (List.mem_cons_of_mem _ member))

theorem readBitVector_blames {width : SExpr} (inside : known width)
    (digits : Text) :
    Blames known (readBitVector digits width) := by
  refine (readNumeral_blames inside).bind fun bits read => ?_
  split
  · next zero =>
    rw [zero] at read
    exact blames_mismatch inside read
  · split
    · exact blames_ok _
    · exact blames_of_unplaced rfl

theorem readFunctionArray_blames {function : SExpr} (inside : known function) :
    Blames known (readFunctionArray symbols function) := by
  refine (readSymbol_blames inside _).bind fun name named => ?_
  split
  · exact blames_of_suits inside rfl
      (SExpr.mentions_of_symbol? (readSymbol_eq_ok.mp named))
  · split
    · exact blames_ok _
    · exact blames_unsupported _ _

theorem readIndexedConstant_blames {mark : SExpr} {items : List SExpr}
    {position : Position} (inside : known (.list (mark :: items) position))
    (insideItems : ∀ item ∈ items, known item) :
    Blames known
      (readIndexedConstant symbols items (.list (mark :: items) position)) := by
  have otherwise : Blames known
      (do
        let named ← readIndexedName items (.list (mark :: items) position)
        mismatch (.indexedConstant named.fst) (.list (mark :: items) position) :
          Except Fault Term) :=
    blames_of_indexedName inside insideItems fun _ _ named =>
      blames_mismatch inside named
  unfold readIndexedConstant
  split
  · split
    · exact otherwise
    split
    · exact readBitVector_blames (insideItems _ (by simp)) _
    split
    · exact readFunctionArray_blames _ (insideItems _ (by simp))
    · exact otherwise
  · exact otherwise

theorem readQualified_blames (closed : ClosedUnderItems known) {mark : SExpr}
    {items : List SExpr} {position : Position}
    (inside : known (.list (mark :: items) position))
    (insideItems : ∀ item ∈ items, known item) :
    Blames known
      (readQualified symbols scope items (.list (mark :: items) position)) := by
  unfold readQualified
  split
  · next head sortExpression =>
    split
    · exact blames_misshapen inside _
    · next name named =>
      have mentioned := SExpr.mentions_of_symbol? named
      refine (readSort_blames symbols [] closed _
        (insideItems _ (by simp))).bind fun stated _ =>
        (readReference_blames _ _ (insideItems _ (by simp)) mentioned).bind
          fun term _ => ?_
      split
      · exact blames_ok _
      · exact blames_mismatch inside (SExpr.mentions_list mentioned (by simp))
  · exact blames_misshapen inside _

theorem requireArguments_blames (inside : known expression) {name : Text}
    (named : expression.Mentions name) (place : Nat)
    (arguments expected : List SmtSort) :
    Blames known
      (requireArguments name expression place arguments expected) := by
  induction arguments generalizing place expected with
  | nil => exact blames_ok _
  | cons got arguments inductionHypothesis =>
      cases expected with
      | nil => exact blames_ok _
      | cons wanted expected =>
          rw [requireArguments]
          split
          · exact inductionHypothesis _ _
          · exact blames_mismatch inside named

theorem applyConstantArray_blames (inside : known expression)
    (named : expression.Mentions Operator.constantArray.name) (stated : SmtSort)
    (arguments : List Term) :
    Blames known (applyConstantArray stated arguments expression) := by
  unfold applyConstantArray
  split
  · split
    · exact blames_ok _
    · exact blames_mismatch inside named
  · exact blames_mismatch inside named

variable {head : SExpr} {name : Text}

theorem resolveHead_blames (inside : known expression)
    (named : expression.Mentions name) (insideHead : known head)
    (headNamed : head.Mentions name) (indices : List Nat)
    (arguments : List SmtSort) :
    Blames known
      (resolveHead symbols name indices arguments expression head.place) := by
  unfold resolveHead
  split
  · split
    · exact (requireArguments_blames inside named _ _ _).bind fun _ _ =>
        blames_ok _
    · exact blames_mismatch inside named
  · split
    · next operator rule found =>
      split
      · exact blames_ok _
      · next fault rejected =>
        obtain ⟨applied, isOperator, ruled⟩ := Option.bind_eq_some_iff.mp found
        obtain ⟨known, isRule, same⟩ := Option.map_eq_some_iff.mp ruled
        obtain ⟨rfl, rfl⟩ := Prod.mk.inj same
        have isName : applied.name = name := by
          have := (Option.filter_eq_some_iff.mp isOperator).1
          simpa using List.find?_some this
        exact blames_mismatch inside
          ⟨applied, known, arguments, _, isName ▸ named, isRule, rejected⟩
    · exact blames_of_suits insideHead rfl headNamed

theorem applyName_blames (inside : known expression)
    (named : expression.Mentions name) (insideHead : known head)
    (headNamed : head.Mentions name) (indices : List Nat)
    (stated : Option SmtSort) (arguments : List Term) :
    Blames known
      (applyName symbols scope name indices stated arguments expression
        head.place) := by
  unfold applyName
  split
  · exact blames_mismatch inside named
  split
  · next sort isStated =>
    have isName := (Option.filter_eq_some_iff.mp isStated).2
    exact applyConstantArray_blames inside
      (of_decide_eq_true isName ▸ named) _ _
  · refine (resolveHead_blames _ inside named insideHead headNamed _ _).bind
      fun ⟨head, sort⟩ _ => ?_
    dsimp only
    split
    · exact blames_mismatch inside named
    · exact blames_ok _

/-- A fault in the application of a list is blamed on the application or on a
part of it. -/
theorem applyList_blames (closed : ClosedUnderItems known)
    {headItems rest : List SExpr} {headPosition position : Position}
    (inside : known (.list (.list headItems headPosition :: rest) position))
    (arguments : List Term) :
    Blames known
        (applyList symbols scope headItems
          (.list headItems headPosition) arguments
      (.list (.list headItems headPosition :: rest) position)) := by
  have insideHead : known (.list headItems headPosition) :=
    closed _ _ inside _ List.mem_cons_self
  have insideItems := closed _ _ insideHead
  -- A name in the list at the head occurs in the whole application.
  have upward {name : Text}
      (named : (SExpr.list headItems headPosition).Mentions name) :
      (SExpr.list (.list headItems headPosition :: rest) position).Mentions
        name :=
    SExpr.mentions_list named List.mem_cons_self
  unfold applyList
  dsimp only
  split
  · exact blames_of_suits inside rfl rfl
  next mark items =>
  split
  · exact blames_of_indexedName insideHead
      (fun item member => insideItems item (List.mem_cons_of_mem _ member))
      fun name indices named =>
        applyName_blames _ _ inside (upward named) insideHead named indices _ _
  split
  · split
    · next inner sortExpression =>
      have insideInner : known inner := insideItems inner (by simp)
      refine (readSort_blames symbols [] closed _
        (insideItems _ (by simp))).bind
        fun stated _ => ?_
      split
      · exact blames_of_unplaced rfl
      · next innerMark innerItems innerPosition =>
        split
        · refine blames_of_indexedName insideInner
            (fun item member => closed _ _ insideInner item
              (List.mem_cons_of_mem _ member))
            fun name indices innerNamed => ?_
          have named :
              (SExpr.list [mark, .list (innerMark :: innerItems) innerPosition,
              sortExpression] headPosition).Mentions name :=
            SExpr.mentions_list innerNamed (by simp)
          exact applyName_blames _ _ inside
            (upward named) insideHead named indices _ _
        · exact blames_of_suits inside rfl rfl
      · next name quoted innerPosition =>
        have named :
            (SExpr.list [mark, .atom (.symbol name quoted) innerPosition,
            sortExpression] headPosition).Mentions name :=
          SExpr.mentions_list (SExpr.mentions_symbol quoted innerPosition)
            (by simp)
        exact applyName_blames _ _ inside (upward named) insideHead named _ _ _
      · exact blames_of_suits inside rfl rfl
    · exact blames_misshapen insideHead _
  · exact blames_of_suits inside rfl rfl

theorem readAttributes_blames : (expressions : List SExpr) →
    (∀ expression ∈ expressions, known expression) →
    Blames known (readAttributes expressions)
  | [], _ => blames_ok _
  | .atom (.keyword key) position :: rest, inside => by
      have insideRest : ∀ item ∈ rest, known item := fun item member =>
        inside item (List.mem_cons_of_mem _ member)
      rw [readAttributes.eq_def]
      dsimp only
      split
      · exact blames_ok _
      · split
        · exact (readAttributes_blames _ insideRest).bind fun _ _ => blames_ok _
        · exact (readAttributes_blames _ fun item member =>
            insideRest item (List.mem_cons_of_mem _ member)).bind fun _ _ =>
              blames_ok _
  | .list _ _ :: _, inside | .atom (.numeral _) _ :: _, inside
  | .atom (.decimal _) _ :: _, inside
  | .atom (.hexadecimal _) _ :: _, inside | .atom (.binary _) _ :: _, inside
  | .atom (.string _) _ :: _, inside | .atom (.symbol _ _) _ :: _, inside =>
      blames_expected (inside _ List.mem_cons_self) _

theorem name_of_quantifier? {name : Text} {quantifier : Quantifier}
    (found : quantifier? name = some quantifier) : quantifier.name = name := by
  simpa using List.find?_some found

mutual

/-- What a fault in a term blames is the term or a part of it. -/
theorem readTerm_blames (closed : ClosedUnderItems known) :
    (expression : SExpr) →
    (scope : Scope) → known expression →
    Blames known (readTerm symbols scope expression)
  | .atom leaf position, scope, inside => by
      rw [readTerm]
      exact readAtom_blames _ _ inside
  | .list [] position, scope, inside =>
    blames_of_suits inside rfl ⟨position, rfl⟩
  | .list (.list headItems headPosition :: rest) position, scope, inside => by
      rw [readTerm]
      split
      · exact blames_of_suits inside rfl rfl
      · exact (readTerms_blames closed rest scope fun item member =>
          closed _ _ inside item (List.mem_cons_of_mem _ member)).bind
            fun arguments _ =>
            applyList_blames _ _ closed inside _
  | .list (.atom leaf headPosition :: rest) position, scope, inside => by
      have insideHead : known (.atom leaf headPosition) :=
        closed _ _ inside _ List.mem_cons_self
      have insideRest : ∀ item ∈ rest, known item := fun item member =>
        closed _ _ inside item (List.mem_cons_of_mem _ member)
      cases leaf with
      | symbol name quoted =>
          have headed :
              (SExpr.list (.atom (.symbol name quoted) headPosition :: rest)
              position).headSymbol? = some name :=
            rfl
          rw [readTerm.eq_def]
          dsimp only
          split
          · next isLet =>
            split
            · next first others listPosition body =>
              have insideList :=
                closed _ _ (insideRest (.list (first :: others) listPosition)
                  (by simp))
              exact (readBindings_blames closed (first :: others) scope
                [] insideList).bind
                fun bindings _ =>
                  (readTerm_blames closed body _
                    (insideRest body (by simp))).bind
                    fun _ _ => blames_ok _
            · exact blames_of_suits inside rfl (isLet ▸ headed)
          split
          · next quantifier found =>
            split
            · next first others listPosition body =>
              have insideList :=
                closed _ _ (insideRest (.list (first :: others) listPosition)
                  (by simp))
              have insideBody := insideRest body (by simp)
              refine (readSortedNames_blames symbols closed insideList).bind
                fun binders _ =>
                (readTerm_blames closed body _ insideBody).bind fun term read =>
                  ?_
              split
              · exact blames_ok _
              · exact blames_mismatch insideBody ⟨symbols, _, term, read, rfl⟩
            · exact blames_of_suits inside
                rfl (name_of_quantifier? found ▸ headed)
          split
          · next isMark =>
            split
            · next inner first others =>
              exact (readTerm_blames closed inner scope
                (insideRest inner (by simp))).bind
                fun term _ =>
                  (readAttributes_blames (first :: others) fun item member =>
                    insideRest item (List.mem_cons_of_mem _ member)).bind
                      fun _ _ => blames_ok _
            · exact blames_of_suits inside rfl (isMark ▸ headed)
          split
          · exact readIndexedConstant_blames _ inside insideRest
          split
          · exact readQualified_blames _ _ closed inside insideRest
          split
          · exact blames_unsupported _ _
          · have named :
                (SExpr.list (.atom (.symbol name quoted) headPosition :: rest)
                position).Mentions name :=
              SExpr.mentions_list (SExpr.mentions_symbol _ _) List.mem_cons_self
            exact (readTerms_blames closed rest scope insideRest).bind
              fun arguments _ =>
              applyName_blames _ _ inside named insideHead
                (SExpr.mentions_symbol _ _) _ _ _
      | numeral _ | decimal _ | hexadecimal _ | binary _ | string _
      | keyword _ =>
          exact blames_of_suits inside rfl rfl

theorem readTerms_blames (closed : ClosedUnderItems known) :
    (expressions : List SExpr) →
    (scope : Scope) → (∀ expression ∈ expressions, known expression) →
    Blames known (readTerms symbols scope expressions)
  | [], scope, _ => blames_ok _
  | expression :: expressions, scope, inside => by
      rw [List.forall_mem_cons] at inside
      rw [readTerms]
      exact (readTerm_blames closed expression scope inside.1).bind fun _ _ =>
        (readTerms_blames closed expressions scope inside.2).bind fun _ _ =>
          blames_ok _

theorem readBindings_blames (closed : ClosedUnderItems known) :
    (expressions : List SExpr) →
    (scope : Scope) → (seen : List Text) →
    (∀ expression ∈ expressions, known expression) →
    Blames known (readBindings symbols scope seen expressions)
  | [], scope, seen, _ => blames_ok _
  | .list [nameExpression, value] position :: others, scope, seen, inside => by
      rw [List.forall_mem_cons] at inside
      obtain ⟨insideBinding, insideOthers⟩ := inside
      have insideItems := closed _ _ insideBinding
      rw [readBindings]
      refine (readSymbol_blames (insideItems nameExpression (by simp)) _).bind
        fun name named => ?_
      dsimp only
      split
      · exact blames_of_suits insideBinding rfl
          ⟨nameExpression, value, position, rfl, readSymbol_eq_ok.mp named⟩
      · exact (readTerm_blames closed value scope
          (insideItems value (by simp))).bind fun _ _ =>
          (readBindings_blames closed others scope _ insideOthers).bind
            fun _ _ => blames_ok _
  | .atom _ _ :: _, scope, seen, inside | .list [] _ :: _, scope, seen, inside
  | .list [_] _ :: _, scope, seen, inside
  | .list (_ :: _ :: _ :: _) _ :: _, scope, seen, inside =>
      blames_misshapen (inside _ List.mem_cons_self) _

end

end Terms

end ModelAudit
