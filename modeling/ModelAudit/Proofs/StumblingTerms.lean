import Mathlib.Logic.Relation
import ModelAudit.Proofs.Rejection
import ModelAudit.Proofs.SymbolGrowth

/-!
# Where reading a term breaks off

Reading a term visits parts of it, each under the binders around that part. It
breaks off without a rejection if and only if it comes to a part with one of two
shapes: an application of a qualified name whose name is an empty list, or a
bit-vector constant whose digits are not all decimal.
-/

namespace ModelAudit

/-- Whether a list with this head is read as an application to the other
items. -/
def SExpr.isApplied : SExpr → Bool
  | .list items _ => !items.isEmpty
  | .atom (.symbol name _) _ =>
    (quantifier? name).isNone &&
      !(["let", "!", "_", "as", "match"] : List Text).contains name
  | .atom _ _ => false

/-- An expression under the binders of a scope. -/
structure Site where
  scope : Scope
  expression : SExpr

/-- Reading the first expression comes to the second one, a direct part of the
first. What stands before the part is read without fault. -/
inductive Visits (symbols : SymbolTable) : Site → Site → Prop
  | argument {scope : Scope} {head argument : SExpr} {before after : List SExpr}
      {terms : List Term} {position : Position} :
      head.isApplied = true → readTerms symbols scope before = .ok terms →
      Visits symbols
        ⟨scope, .list (head :: (before ++ argument :: after)) position⟩
        ⟨scope, argument⟩
  | boundValue {scope : Scope} {mark nameExpression value body : SExpr}
      {before after : List SExpr} {bindings : List (Text × Term)} {name : Text}
      {bindingPosition listPosition position : Position} :
      mark.isSymbol "let" = true →
      readBindings symbols scope [] before = .ok bindings →
      nameExpression.symbol? = some name → name ∉ bindings.map Prod.fst →
      Visits symbols
        ⟨scope, .list
            [mark, .list
              (before ++ .list [nameExpression, value] bindingPosition ::
          after) listPosition, body] position⟩
        ⟨scope, value⟩
  | letBody {scope : Scope} {mark body : SExpr} {bound : List SExpr}
      {bindings : List (Text × Term)} {listPosition position : Position} :
      mark.isSymbol "let" = true → bound ≠ [] →
      readBindings symbols scope [] bound = .ok bindings →
      Visits symbols
        ⟨scope, .list [mark, .list bound listPosition, body] position⟩
        ⟨scope.enter
          (bindings.map fun binding => (binding.fst, binding.snd.sort)), body⟩
  | quantifierBody {scope : Scope} {mark body : SExpr} {name : Text}
      {quantifier : Quantifier} {names : List SExpr} {binders : Binders}
      {listPosition position : Position} :
      mark.symbol? = some name → quantifier? name = some quantifier →
      names ≠ [] →
      names.mapM (readSortedName symbols) = .ok binders →
      Visits symbols
        ⟨scope, .list [mark, .list names listPosition, body] position⟩
        ⟨scope.enter binders, body⟩
  | annotated {scope : Scope} {mark annotated : SExpr} {attributes : List SExpr}
      {position : Position} :
      mark.isSymbol "!" = true → attributes ≠ [] →
      Visits symbols ⟨scope, .list (mark :: annotated :: attributes) position⟩
        ⟨scope, annotated⟩

/-- Reading the first expression comes to the second one, at any depth. -/
abbrev ComesTo (symbols : SymbolTable) : Site → Site → Prop :=
  Relation.ReflTransGen (Visits symbols)

/-- Reading the expression breaks off, after all its parts have been read. -/
inductive Stumbles (symbols : SymbolTable) : Site → Fault → Prop
  /-- An empty list stands in the place of the name that is qualified and
  applied. -/
  | emptyName {scope : Scope} {mark sortExpression : SExpr}
      {arguments : List SExpr} {terms : List Term} {sort : SmtSort}
      {emptyPosition headPosition position : Position} :
      mark.isSymbol "as" = true →
      readTerms symbols scope arguments = .ok terms →
      readSort symbols [] sortExpression = .ok sort →
      Stumbles symbols ⟨scope,
        .list (.list [mark, .list [] emptyPosition,
          sortExpression] headPosition :: arguments) position⟩ .emptyIdentifier
  /-- A digit of a bit-vector constant is no decimal digit. -/
  | loneDigit {scope : Scope} {mark nameExpression widthExpression : SExpr}
      {name digits : Text} {point : CodePoint} {width : Nat}
      {position : Position} :
      mark.isSymbol "_" = true → nameExpression.symbol? = some name →
      bitVectorDigits? name = some digits → point ∈ digits →
      point.decimalDigit? = none →
      readNumeral widthExpression = .ok width → width ≠ 0 →
      Stumbles symbols
        ⟨scope, .list [mark, nameExpression, widthExpression] position⟩
        .digitWithoutValue

variable {symbols : SymbolTable} {scope : Scope} {fault : Fault}

/-! ## How terms of each shape are read -/

theorem SExpr.exists_of_symbol? {expression : SExpr} {name : Text}
    (named : expression.symbol? = some name) :
    ∃ quoted position, expression = .atom (.symbol name quoted) position := by
  unfold symbol? at named
  split at named
  · obtain rfl := Option.some.inj named
    exact ⟨_, _, rfl⟩
  · cases named

theorem SExpr.symbol?_of_isSymbol {expression : SExpr} {name : Text}
    (isSymbol : expression.isSymbol name = true) :
    expression.symbol? = some name := by
  simpa [SExpr.isSymbol] using isSymbol

/-- What becomes of the arguments of an application that have been read. -/
def applyHead (symbols : SymbolTable) (scope : Scope) (head : SExpr)
    (arguments : List Term) (expression : SExpr) : Except Fault Term :=
  match head with
  | .list items _ => applyList symbols scope items head arguments expression
  | .atom _ _ =>
    applyName symbols scope (head.symbol?.getD [])
      [] none arguments expression head.place

/-- An application is read by its arguments first, whatever its head. -/
theorem readTerm_of_isApplied {head : SExpr} (applied : head.isApplied = true)
    (arguments : List SExpr) (position : Position) :
    readTerm symbols scope (.list (head :: arguments) position) = (do
      let terms ← readTerms symbols scope arguments
      applyHead symbols scope head terms
        (.list (head :: arguments) position)) := by
  match head with
  | .list items headPosition =>
      have nonempty : items.isEmpty = false := by
        simpa [SExpr.isApplied] using applied
      rw [readTerm, nonempty]
      rfl
  | .atom (.symbol name quoted) headPosition =>
      obtain ⟨notQuantifier, plain⟩ := Bool.and_eq_true_iff.mp applied
      rw [Option.isNone_iff_eq_none] at notQuantifier
      have others :
          (name ≠ "let" ∧ name ≠ "!" ∧ name ≠ "_" ∧ name ≠ "as" ∧
            name ≠ "match") := by
        simpa using plain
      obtain ⟨notLet, notMark, notIndexed, notQualified, notMatch⟩ := others
      rw [readTerm.eq_def]
      dsimp only
      rw [if_neg notLet, notQuantifier]
      dsimp only
      rw [if_neg notMark, if_neg notIndexed, if_neg notQualified,
        if_neg notMatch]
      rfl
  | .atom (.numeral _) _ | .atom (.decimal _) _ | .atom (.hexadecimal _) _
  | .atom (.binary _) _ | .atom (.string _) _ | .atom (.keyword _) _ =>
    cases applied

theorem readTerm_of_let {mark : SExpr} (isLet : mark.isSymbol "let" = true)
    {bound : List SExpr} (nonempty : bound ≠ []) (body : SExpr)
    (listPosition position : Position) :
    readTerm symbols scope
        (.list [mark, .list bound listPosition, body] position) = (do
          let bindings ← readBindings symbols scope [] bound
          let binders :=
  bindings.map fun binding => (binding.fst, binding.snd.sort)
          return .letIn bindings
            (← readTerm symbols (scope.enter binders) body)) := by
  obtain ⟨quoted, markPosition, rfl⟩ :=
    SExpr.exists_of_symbol? (SExpr.symbol?_of_isSymbol isLet)
  obtain ⟨first, others, rfl⟩ := List.exists_cons_of_ne_nil nonempty
  rw [readTerm.eq_def]
  dsimp only
  rw [if_pos rfl]

theorem readTerm_of_quantifier {mark : SExpr} {name : Text}
    {quantifier : Quantifier} (named : mark.symbol? = some name)
    (isQuantifier : quantifier? name = some quantifier)
    {names : List SExpr} (nonempty : names ≠ []) (body : SExpr)
    (listPosition position : Position) :
    readTerm symbols scope
        (.list [mark, .list names listPosition, body] position) = (do
          let binders ← names.mapM (readSortedName symbols)
          let term ← readTerm symbols (scope.enter binders) body
          if term.sort = .bool then return .quantified quantifier binders term
          else mismatch (.quantifierBody term.sort) body) := by
  obtain ⟨quoted, markPosition, rfl⟩ := SExpr.exists_of_symbol? named
  obtain ⟨first, others, rfl⟩ := List.exists_cons_of_ne_nil nonempty
  have notLet : name ≠ "let" := by
    rintro rfl
    cases isQuantifier
  rw [readTerm.eq_def]
  dsimp only
  rw [if_neg notLet, isQuantifier]

theorem readTerm_of_annotated {mark : SExpr} (isMark : mark.isSymbol "!" = true)
    {attributes : List SExpr} (nonempty : attributes ≠ []) (annotated : SExpr)
    (position : Position) :
    readTerm symbols scope (.list (mark :: annotated :: attributes) position) =
        (do
          let term ← readTerm symbols scope annotated
          return .annotated term (← readAttributes attributes)) := by
  obtain ⟨quoted, markPosition, rfl⟩ :=
    SExpr.exists_of_symbol? (SExpr.symbol?_of_isSymbol isMark)
  obtain ⟨first, others, rfl⟩ := List.exists_cons_of_ne_nil nonempty
  have notLet : ("!" : Text) ≠ "let" := by decide
  have notQuantifier : quantifier? "!" = none := by decide
  rw [readTerm.eq_def]
  dsimp only
  rw [if_neg notLet, notQuantifier]
  dsimp only
  rw [if_pos rfl]

theorem readTerm_of_indexed {mark : SExpr} (isMark : mark.isSymbol "_" = true)
    (items : List SExpr) (position : Position) :
    readTerm symbols scope (.list (mark :: items) position) =
      readIndexedConstant symbols items (.list (mark :: items) position) := by
  obtain ⟨quoted, markPosition, rfl⟩ :=
    SExpr.exists_of_symbol? (SExpr.symbol?_of_isSymbol isMark)
  have notLet : ("_" : Text) ≠ "let" := by decide
  have notQuantifier : quantifier? "_" = none := by decide
  have notAnnotation : ("_" : Text) ≠ "!" := by decide
  rw [readTerm.eq_def]
  dsimp only
  rw [if_neg notLet, notQuantifier]
  dsimp only
  rw [if_neg notAnnotation, if_pos rfl]

/-! ## Faults of the parts -/

theorem Answers.ne_error {Value : Type} {computed : Except Fault Value}
    (answers : Answers computed) (crash : fault.isRejection = false) :
    computed ≠ .error fault := by
  intro failed
  rw [answers fault failed] at crash
  cases crash

/-- After a computation that answers, only the next one can break off. -/
theorem Answers.of_bind {Value Image : Type} {computed : Except Fault Value}
    {next : Value → Except Fault Image} (answers : Answers computed)
    (crash : fault.isRejection = false)
    (failed : computed >>= next = .error fault) :
    ∃ value, computed = .ok value ∧ next value = .error fault :=
  (Outcome.bind_eq_error.mp failed).resolve_left (answers.ne_error crash)

/-- Digits have no value if one of them stands alone. -/
theorem Text.anyDecimalValue?_eq_none {digits : Text} :
    digits.anyDecimalValue? = none ↔
      ∃ point ∈ digits, point.decimalDigit? = none := by
  suffices general : ∀ start : Nat,
      digits.foldlM (fun value point =>
        point.decimalDigit?.map fun digit => 10 * value + digit) start = none ↔
      ∃ point ∈ digits, point.decimalDigit? = none from general 0
  induction digits with
  | nil => simp
  | cons point digits inductionHypothesis =>
      intro start
      cases digit : point.decimalDigit? with
      | none => simp [List.foldlM_cons, digit]
      | some value => simp [List.foldlM_cons, digit, inductionHypothesis]

/-- Reading several terms fails at the first one that cannot be read. -/
theorem readTerms_eq_error_iff {expressions : List SExpr} :
    readTerms symbols scope expressions = .error fault ↔
      ∃ before expression after terms,
        expressions = before ++ expression :: after ∧
        readTerms symbols scope before = .ok terms ∧
        readTerm symbols scope expression = .error fault := by
  induction expressions with
  | nil => simp [readTerms]
  | cons first others inductionHypothesis =>
      rw [readTerms]
      constructor
      · intro failed
        rcases Outcome.bind_eq_error.mp failed
          with here | ⟨term, firstRead, failed⟩
        · exact ⟨[], first, others, [], rfl, by rw [readTerms], here⟩
        rcases Outcome.bind_eq_error.mp failed with later | ⟨_, _, returned⟩
        · obtain ⟨before, expression, after, terms, rfl, beforeRead, faulty⟩ :=
            inductionHypothesis.mp later
          refine ⟨first :: before, expression, after, term :: terms, rfl,
            ?_, faulty⟩
          rw [readTerms, firstRead, beforeRead]
          rfl
        · cases returned
      · rintro ⟨before, expression, after, terms, split, beforeRead, faulty⟩
        cases before with
        | nil =>
            obtain ⟨rfl, rfl⟩ := List.cons.inj split
            rw [faulty]
            rfl
        | cons earlier before =>
            obtain ⟨rfl, rfl⟩ := List.cons.inj split
            rw [readTerms] at beforeRead
            obtain ⟨term, firstRead, beforeRead⟩ :=
              Outcome.bind_eq_ok.mp beforeRead
            obtain ⟨rest, restRead, _⟩ := Outcome.bind_eq_ok.mp beforeRead
            have later := inductionHypothesis.mpr
              ⟨before, expression, after, rest, rfl, restRead, faulty⟩
            rw [firstRead, later]
            rfl

/-- Reading bindings breaks off at the first bound value where reading breaks
off. -/
theorem exists_of_readBindings_eq_error (crash : fault.isRejection = false)
    {seen : List Text} {expressions : List SExpr}
    (failed : readBindings symbols scope seen expressions = .error fault) :
    ∃ before nameExpression value position after name bindings,
      expressions = before ++ .list [nameExpression, value] position :: after ∧
        readBindings symbols scope seen before = .ok bindings ∧
        nameExpression.symbol? = some name ∧ name ∉ seen ∧
        name ∉ bindings.map Prod.fst ∧
        readTerm symbols scope value = .error fault := by
  induction expressions generalizing seen with
  | nil => cases failed
  | cons first others inductionHypothesis =>
      match first with
      | .list [nameExpression, value] position =>
          rw [readBindings] at failed
          obtain ⟨name, named, failed⟩ :=
            (readSymbol_answers _ _).of_bind crash failed
          dsimp only at failed
          split at failed
          · obtain rfl := Except.error.inj failed
            cases crash
          next fresh =>
          have unseen : name ∉ seen := by simpa using fresh
          rcases Outcome.bind_eq_error.mp failed
            with here | ⟨term, valueRead, failed⟩
          · exact ⟨[], nameExpression, value, position, others, name, [],
              rfl, rfl, readSymbol_eq_ok.mp named, unseen, by simp, here⟩
          rcases Outcome.bind_eq_error.mp failed with later | ⟨_, _, returned⟩
          · obtain ⟨before, laterExpression, laterValue, laterPosition, after,
              laterName, bindings, rfl, beforeRead, laterNamed, laterUnseen,
              unbound, faulty⟩ :=
              inductionHypothesis later
            rw [List.mem_cons, not_or] at laterUnseen
            obtain ⟨different, laterUnseen⟩ := laterUnseen
            refine ⟨.list [nameExpression, value] position :: before,
              laterExpression, laterValue, laterPosition, after, laterName,
              (name, term) :: bindings, rfl, ?_, laterNamed, laterUnseen,
              ?_, faulty⟩
            · rw [readBindings_cons (readSymbol_eq_ok.mp named) unseen,
                valueRead, beforeRead]
              rfl
            · exact List.not_mem_cons_of_ne_of_not_mem different unbound
          · cases returned
      | .atom _ _ | .list [] _ | .list [_] _ | .list (_ :: _ :: _ :: _) _ =>
          exact absurd failed ((answers_misshapen _ _).ne_error crash)

theorem readBindings_of_value {nameExpression value : SExpr} {name : Text}
    {seen : List Text} {before after : List SExpr}
    {bindings : List (Text × Term)} {position : Position}
    (beforeRead : readBindings symbols scope seen before = .ok bindings)
    (named : nameExpression.symbol? = some name) (unseen : name ∉ seen)
    (unbound : name ∉ bindings.map Prod.fst)
    (faulty : readTerm symbols scope value = .error fault) :
    readBindings symbols scope seen
      (before ++ .list [nameExpression, value] position :: after) =
        .error fault := by
  induction before generalizing seen bindings with
  | nil =>
      rw [List.nil_append, readBindings_cons named unseen, faulty]
      rfl
  | cons first before inductionHypothesis =>
      obtain ⟨_, _, _, earlier, term, rest, rfl, rfl, parts⟩ :=
        exists_bindingParts beforeRead
      rw [List.map_cons, List.mem_cons, not_or] at unbound
      have later :=
        inductionHypothesis parts.others
          (by simpa using ⟨unbound.1, unseen⟩) unbound.2
      rw [List.cons_append, readBindings_cons parts.named parts.unseen,
        parts.value, later]
      rfl

/-- Applying a list to terms breaks off only at an empty list that a sort
qualifies. -/
theorem exists_of_applyList_eq_error (crash : fault.isRejection = false)
    {items : List SExpr} {head expression : SExpr} {arguments : List Term}
    (failed : applyList symbols scope items head arguments expression =
      .error fault) :
    ∃ mark emptyPosition sortExpression sort,
      items = [mark, .list [] emptyPosition, sortExpression] ∧
        mark.isSymbol "as" = true ∧
        readSort symbols [] sortExpression = .ok sort ∧
        fault = .emptyIdentifier := by
  have unexpected (cause : MalformedCause) (place : Place) :
      (.error (.malformed cause place) : Except Fault Term) ≠ .error fault :=
    (answers_error.mpr rfl).ne_error crash
  unfold applyList at failed
  dsimp only at failed
  split at failed
  · exact absurd failed (unexpected _ _)
  next mark items =>
  split at failed
  · obtain ⟨named, _, failed⟩ :=
      (readIndexedName_answers _ _).of_bind crash failed
    exact absurd failed ((applyName_answers _ _ _ _ _ _ _ _).ne_error crash)
  split at failed
  next notIndexed isQualified =>
    split at failed
    next inner sortExpression =>
      obtain ⟨sort, sortRead, failed⟩ :=
        (readSort_answers _ _ _).of_bind crash failed
      split at failed
      next emptyPosition _ =>
        exact ⟨mark, emptyPosition, sortExpression, sort, rfl, isQualified,
          sortRead, (Except.error.inj failed).symm⟩
      next innerMark innerItems innerPosition =>
        split at failed
        · obtain ⟨named, _, failed⟩ :=
            (readIndexedName_answers _ _).of_bind crash failed
          exact absurd failed
            ((applyName_answers _ _ _ _ _ _ _ _).ne_error crash)
        · exact absurd failed (unexpected _ _)
      next name quoted innerPosition =>
        exact absurd failed ((applyName_answers _ _ _ _ _ _ _ _).ne_error crash)
      · exact absurd failed (unexpected _ _)
    · exact absurd failed ((answers_misshapen _ _).ne_error crash)
  · exact absurd failed (unexpected _ _)

/-- Reading an indexed constant breaks off only at a digit of a bit-vector
constant. -/
theorem exists_of_readIndexedConstant_eq_error
    (crash : fault.isRejection = false) {items : List SExpr}
    {expression : SExpr}
    (failed : readIndexedConstant symbols items expression = .error fault) :
    ∃ nameExpression widthExpression name digits point width,
      items = [nameExpression, widthExpression] ∧
        nameExpression.symbol? = some name ∧
        bitVectorDigits? name = some digits ∧ point ∈ digits ∧
        point.decimalDigit? = none ∧
        readNumeral widthExpression = .ok width ∧ width ≠ 0 ∧
        fault = .digitWithoutValue := by
  have otherwise : (do
      let named ← readIndexedName items expression
      mismatch (.indexedConstant named.fst) expression : Except Fault Term) ≠
        .error fault :=
    ((readIndexedName_answers _ _).bind fun _ => answers_mismatch _ _).ne_error
      crash
  unfold readIndexedConstant at failed
  dsimp only at failed
  split at failed
  next nameExpression widthExpression =>
    split at failed
    · exact absurd failed otherwise
    next name named =>
    split at failed
    next digits isBitVector =>
      rw [readBitVector] at failed
      obtain ⟨width, widthRead, failed⟩ :=
        (readNumeral_answers _).of_bind crash failed
      split at failed
      · exact absurd failed ((answers_mismatch _ _).ne_error crash)
      next positive =>
      split at failed
      · cases failed
      next absent =>
      obtain ⟨point, member, lone⟩ := Text.anyDecimalValue?_eq_none.mp absent
      exact ⟨nameExpression, widthExpression, name, digits, point, width, rfl,
        named, isBitVector, member, lone, widthRead, positive,
        (Except.error.inj failed).symm⟩
    · split at failed
      · exact absurd failed ((readFunctionArray_answers _ _).ne_error crash)
      · exact absurd failed otherwise
  · exact absurd failed otherwise

/-! ## Terms -/

/-- Reading breaks off where it stumbles. -/
theorem Stumbles.readTerm_eq_error {site : Site}
    (stumbles : Stumbles symbols site fault) :
    readTerm symbols site.scope site.expression = .error fault := by
  cases stumbles with
  | emptyName qualified argumentsRead sortRead =>
      obtain ⟨quoted, markPosition, rfl⟩ :=
        SExpr.exists_of_symbol? (SExpr.symbol?_of_isSymbol qualified)
      have notIndexed : ¬("as" : Text) = "_" := by decide
      rw [readTerm_of_isApplied rfl, argumentsRead]
      simp only [Outcome.ok_bind, applyHead, applyList]
      rw [if_neg (by simpa [SExpr.isSymbol, SExpr.symbol?] using notIndexed),
        if_pos qualified, sortRead]
      rfl
  | loneDigit indexed named isBitVector member lone widthRead positive =>
      have absent := Text.anyDecimalValue?_eq_none.mpr ⟨_, member, lone⟩
      rw [readTerm_of_indexed indexed]
      simp only [readIndexedConstant, named, isBitVector, readBitVector,
        widthRead, Outcome.ok_bind]
      rw [if_neg positive, absent]

theorem Stumbles.not_isRejection {site : Site}
    (stumbles : Stumbles symbols site fault) :
    fault.isRejection = false := by
  cases stumbles with
  | emptyName _ _ _ | loneDigit _ _ _ _ _ _ _ => rfl

/-- A fault of a direct part is the fault of the whole. -/
theorem Visits.readTerm_eq_error {site part : Site}
    (visits : Visits symbols site part)
    (faulty : readTerm symbols part.scope part.expression = .error fault) :
    readTerm symbols site.scope site.expression = .error fault := by
  cases visits with
  | @argument scope head argument before after terms position applied
      beforeRead =>
      have arguments :
          readTerms symbols scope (before ++ argument :: after) =
            .error fault :=
        readTerms_eq_error_iff.mpr ⟨before, argument, after, terms, rfl,
          beforeRead, faulty⟩
      rw [readTerm_of_isApplied applied, arguments]
      rfl
  | boundValue isLet beforeRead named unbound =>
      rw [readTerm_of_let isLet (by simp),
        readBindings_of_value beforeRead named List.not_mem_nil unbound faulty]
      rfl
  | letBody isLet nonempty boundRead =>
      rw [readTerm_of_let isLet nonempty, boundRead, Outcome.ok_bind]
      dsimp only at faulty ⊢
      rw [faulty]
      rfl
  | quantifierBody named isQuantifier nonempty namesRead =>
      rw [readTerm_of_quantifier named isQuantifier nonempty, namesRead,
        Outcome.ok_bind, faulty]
      rfl
  | annotated isMark nonempty =>
      rw [readTerm_of_annotated isMark nonempty, faulty]
      rfl

/-- Reading only visits smaller expressions, so coming to a part ends. -/
theorem Visits.sizeOf_lt {site part : Site}
    (visits : Visits symbols site part) :
    sizeOf part.expression < sizeOf site.expression := by
  have inList {item : SExpr} {items : List SExpr} (member : item ∈ items)
      (position : Position) :
      sizeOf item < sizeOf (SExpr.list items position) := by
    have smaller := List.sizeOf_lt_of_mem member
    simp only [SExpr.list.sizeOf_spec]
    omega
  cases visits with
  | argument _ _ | letBody _ _ _ | quantifierBody _ _ _ _ | annotated _ _ =>
      exact inList (by simp) _
  | @boundValue _ mark nameExpression value body before after _ _
      bindingPosition listPosition position _ _ _ _ =>
      calc sizeOf value
          < sizeOf (SExpr.list [nameExpression, value] bindingPosition) :=
            inList (by simp) _
        _ < sizeOf (SExpr.list
              (before ++ .list [nameExpression, value] bindingPosition :: after)
              listPosition) := inList (by simp) _
        _ < _ := inList (by simp) _

/-! ## Where reading breaks off -/

/-- Reading stumbles here or breaks off in a direct part. -/
def BreaksOffAt (symbols : SymbolTable) (site : Site) (fault : Fault) : Prop :=
  Stumbles symbols site fault ∨
    ∃ part, Visits symbols site part ∧
      readTerm symbols part.scope part.expression = .error fault

/-- Where reading an application breaks off, it is at an argument or at an empty
name. -/
theorem breaksOffAt_of_isApplied (crash : fault.isRejection = false)
    {head : SExpr} {items : List SExpr} {position : Position}
    (applied : head.isApplied = true)
    (failed : readTerm symbols scope (.list (head :: items) position) =
      .error fault) :
    BreaksOffAt symbols ⟨scope, .list (head :: items) position⟩ fault := by
  rw [readTerm_of_isApplied applied] at failed
  rcases Outcome.bind_eq_error.mp failed
    with inArguments | ⟨terms, argumentsRead, failed⟩
  · obtain ⟨before, argument, after, terms, rfl, beforeRead, faulty⟩ :=
      readTerms_eq_error_iff.mp inArguments
    exact .inr ⟨⟨scope, argument⟩, .argument applied beforeRead, faulty⟩
  · cases head with
    | atom leaf headPosition =>
        rw [applyHead] at failed
        exact absurd failed ((applyName_answers _ _ _ _ _ _ _ _).ne_error crash)
    | list headItems headPosition =>
        obtain ⟨mark, emptyPosition, sortExpression, sort, rfl, qualified,
            sortRead, rfl⟩ :=
          exists_of_applyList_eq_error crash failed
        exact .inl (.emptyName qualified argumentsRead sortRead)

section Marks

variable {mark body : SExpr} {bound : List SExpr}
  {listPosition position : Position}

theorem breaksOffAt_of_let (crash : fault.isRejection = false)
    (isLet : mark.isSymbol "let" = true) (nonempty : bound ≠ [])
    (failed : readTerm symbols scope
        (.list [mark, .list bound listPosition, body] position) =
      .error fault) :
    BreaksOffAt symbols
      ⟨scope, .list [mark, .list bound listPosition, body] position⟩ fault := by
  rw [readTerm_of_let isLet nonempty] at failed
  rcases Outcome.bind_eq_error.mp failed
    with inBindings | ⟨bindings, boundRead, failed⟩
  · obtain ⟨before, nameExpression, value, bindingPosition, after, name,
      bindings, rfl, beforeRead, named, _, unbound, faulty⟩ :=
      exists_of_readBindings_eq_error crash inBindings
    exact .inr ⟨⟨scope, value⟩, .boundValue isLet beforeRead named unbound,
      faulty⟩
  rcases Outcome.bind_eq_error.mp failed with inBody | ⟨_, _, returned⟩
  · exact .inr ⟨_, .letBody isLet nonempty boundRead, inBody⟩
  · cases returned

theorem breaksOffAt_of_quantifier (crash : fault.isRejection = false)
    {name : Text} {quantifier : Quantifier} (named : mark.symbol? = some name)
    (isQuantifier : quantifier? name = some quantifier) (nonempty : bound ≠ [])
    (failed : readTerm symbols scope
        (.list [mark, .list bound listPosition, body] position) =
      .error fault) :
    BreaksOffAt symbols
      ⟨scope, .list [mark, .list bound listPosition, body] position⟩ fault := by
  rw [readTerm_of_quantifier named isQuantifier nonempty] at failed
  obtain ⟨binders, namesRead, failed⟩ :=
    (readSortedNames_answers symbols _).of_bind crash failed
  rcases Outcome.bind_eq_error.mp failed with inBody | ⟨term, _, failed⟩
  · exact .inr ⟨_, .quantifierBody named isQuantifier nonempty namesRead,
      inBody⟩
  split at failed
  · cases failed
  · exact absurd failed ((answers_mismatch _ _).ne_error crash)

theorem breaksOffAt_of_annotated (crash : fault.isRejection = false)
    (isMark : mark.isSymbol "!" = true) {attributes : List SExpr}
    (nonempty : attributes ≠ [])
    (failed : readTerm symbols scope
        (.list (mark :: body :: attributes) position) =
      .error fault) :
    BreaksOffAt symbols ⟨scope, .list (mark :: body :: attributes) position⟩
      fault := by
  rw [readTerm_of_annotated isMark nonempty] at failed
  rcases Outcome.bind_eq_error.mp failed with inside | ⟨term, _, failed⟩
  · exact .inr ⟨_, .annotated isMark nonempty, inside⟩
  · obtain ⟨attributes, _, returned⟩ :=
      (readAttributes_answers _).of_bind crash failed
    cases returned

theorem stumbles_of_indexed (crash : fault.isRejection = false)
    (isMark : mark.isSymbol "_" = true) {items : List SExpr}
    (failed : readTerm symbols scope (.list (mark :: items) position) =
      .error fault) :
    Stumbles symbols ⟨scope, .list (mark :: items) position⟩ fault := by
  rw [readTerm_of_indexed isMark] at failed
  obtain ⟨nameExpression, widthExpression, name, digits, point, width, rfl,
    named, isBitVector, member, lone, widthRead, positive, rfl⟩ :=
    exists_of_readIndexedConstant_eq_error crash failed
  exact .loneDigit isMark named isBitVector member lone widthRead positive

/-- Where reading a list with a reserved word breaks off, it is at the body, at
a bound value, at the annotated term or at a digit. -/
theorem breaksOffAt_of_mark (crash : fault.isRejection = false) {head : SExpr}
    {items : List SExpr} (unapplied : ¬head.isApplied = true)
    (failed : readTerm symbols scope (.list (head :: items) position) =
      .error fault) :
    BreaksOffAt symbols ⟨scope, .list (head :: items) position⟩ fault := by
  have malformed (cause : MalformedCause) :
      (.error (.malformed cause position.place) : Except Fault Term) ≠
        .error fault :=
    (answers_error.mpr rfl).ne_error crash
  match head with
  | .list headItems headPosition =>
      have empty : headItems.isEmpty = true := by
        simpa [SExpr.isApplied] using unapplied
      rw [readTerm, if_pos empty] at failed
      exact absurd failed (malformed _)
  | .atom (.numeral _) _ | .atom (.decimal _) _ | .atom (.hexadecimal _) _
  | .atom (.binary _) _ | .atom (.string _) _ | .atom (.keyword _) _ =>
      exact absurd failed (malformed _)
  | .atom (.symbol name quoted) headPosition =>
      have marked {word : Text} (same : name = word) :
          (SExpr.atom (.symbol name quoted) headPosition).isSymbol word =
            true :=
        decide_eq_true (congrArg some same)
      -- The shape of the list decides which of the lemmas above is about it.
      have shape := failed
      rw [readTerm.eq_def] at shape
      dsimp only at shape
      split at shape
      next isLet =>
        split at shape
        · exact breaksOffAt_of_let crash (marked isLet)
            (List.cons_ne_nil _ _) failed
        · exact absurd shape (malformed _)
      next notLet =>
      split at shape
      next quantifier isQuantifier =>
        split at shape
        · exact breaksOffAt_of_quantifier crash rfl isQuantifier
            (List.cons_ne_nil _ _) failed
        · exact absurd shape (malformed _)
      next notQuantifier =>
      split at shape
      next isAnnotation =>
        split at shape
        · exact breaksOffAt_of_annotated crash (marked isAnnotation)
            (List.cons_ne_nil _ _) failed
        · exact absurd shape (malformed _)
      next notAnnotation =>
      split at shape
      next isIndexed =>
        exact .inl (stumbles_of_indexed crash (marked isIndexed) failed)
      next notIndexed =>
      split at shape
      · exact absurd shape ((readQualified_answers _ _ _ _).ne_error crash)
      next notQualified =>
      split at shape
      · exact absurd shape ((answers_unsupported _ _).ne_error crash)
      next notMatch =>
      refine absurd ?_ unapplied
      simp [SExpr.isApplied, notLet, notQuantifier, notAnnotation, notIndexed,
        notQualified, notMatch]

end Marks

/-- Where reading an expression breaks off, it stumbles there or reading one of
its direct parts breaks off. -/
theorem breaksOffAt_of_readTerm_eq_error (crash : fault.isRejection = false)
    {expression : SExpr}
    (failed : readTerm symbols scope expression = .error fault) :
    BreaksOffAt symbols ⟨scope, expression⟩ fault := by
  match expression with
  | .atom leaf position =>
      rw [readTerm] at failed
      exact absurd failed ((readAtom_answers _ _ _ _).ne_error crash)
  | .list [] position =>
      rw [readTerm] at failed
      exact absurd failed ((answers_error.mpr rfl).ne_error crash)
  | .list (head :: items) position =>
      by_cases applied : head.isApplied = true
      · exact breaksOffAt_of_isApplied crash applied failed
      · exact breaksOffAt_of_mark crash applied failed

/-- Reading a term breaks off if and only if it comes to a part where it
stumbles. -/
theorem readTerm_eq_error_iff (crash : fault.isRejection = false)
    {expression : SExpr} :
    readTerm symbols scope expression = .error fault ↔
      ∃ part, ComesTo symbols ⟨scope, expression⟩ part ∧
        Stumbles symbols part fault := by
  constructor
  · intro failed
    induction size : sizeOf expression using Nat.strongRecOn
      generalizing scope expression with
    | _ _ inductionHypothesis =>
      rcases breaksOffAt_of_readTerm_eq_error crash failed
        with stumbles | ⟨part, visits, failed⟩
      · exact ⟨_, .refl, stumbles⟩
      · obtain ⟨last, comes, stumbles⟩ :=
          inductionHypothesis _ (size ▸ visits.sizeOf_lt) failed rfl
        exact ⟨last, .head visits comes, stumbles⟩
  · rintro ⟨part, comes, stumbles⟩
    have backwards (site : Site) (comes : ComesTo symbols site part) :
        readTerm symbols site.scope site.expression = .error fault := by
      induction comes using Relation.ReflTransGen.head_induction_on with
      | refl => exact stumbles.readTerm_eq_error
      | head visits _ inductionHypothesis =>
        exact visits.readTerm_eq_error inductionHypothesis
    exact backwards _ comes

end ModelAudit
