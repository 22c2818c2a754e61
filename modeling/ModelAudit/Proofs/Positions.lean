import ModelAudit.Proofs.Outcome
import ModelAudit.Script.TermReading

/-!
# Positions are for reports only

Reading an expression yields the same value, or a fault of the same kind,
wherever the expression stands. Positions are erased by `SExpr.bare`, and each
reader is shown to treat an expression as it treats the bare one.
-/

namespace ModelAudit

/-- The kinds of faults, as a caller can tell them apart. -/
inductive FaultKind
  | malformed
  | undeclared
  | mismatch
  | noModel
  | conflict
  | unsupported
  | emptyIdentifier
  | digitWithoutValue
  | noFormula
deriving DecidableEq

/-- The kind of a fault, without the place and the wording. An undeclared sort
is an undeclared symbol. -/
def Fault.kind : Fault → FaultKind
  | malformed _ _ => .malformed
  | undeclared _ _ | undeclaredSort _ _ => .undeclared
  | mismatch _ _ => .mismatch
  | noModel _ => .noModel
  | conflict _ _ => .conflict
  | unsupported _ => .unsupported
  | emptyIdentifier => .emptyIdentifier
  | digitWithoutValue => .digitWithoutValue
  | noFormula => .noFormula

/-- The computations return the same value, or fail with faults of the same
kind. -/
def Alike {Value : Type} (left right : Except Fault Value) : Prop :=
  left.mapError Fault.kind = right.mapError Fault.kind

section Alike

variable {Value Image Other : Type} {left middle right : Except Fault Value}

theorem Alike.refl (computed : Except Fault Value) : Alike computed computed :=
  rfl

theorem Alike.symm (alike : Alike left right) : Alike right left :=
  Eq.symm alike

theorem Alike.trans (first : Alike left middle) (second : Alike middle right) :
    Alike left right :=
  Eq.trans first second

theorem alike_error {fault other : Fault} (same : fault.kind = other.kind) :
    Alike (.error fault : Except Fault Value) (.error other) :=
  congrArg Except.error same

theorem Alike.eq_ok {value : Value} (alike : Alike (.ok value) right) :
    right = .ok value := by
  cases right with
  | error fault => cases alike
  | ok other => exact congrArg Except.ok (Except.ok.inj alike).symm

theorem Alike.exists_error {fault : Fault}
    (alike : Alike (.error fault) right) :
    ∃ other, right = .error other ∧ other.kind = fault.kind := by
  cases right with
  | error other => exact ⟨other, rfl, (Except.error.inj alike).symm⟩
  | ok value => cases alike

theorem expected_alike (what : Text) (expression other : SExpr) :
    Alike (expected what expression : Except Fault Value)
      (expected what other) :=
  alike_error rfl

theorem misshapen_alike (what : Text) (expression other : SExpr) :
    Alike (misshapen what expression : Except Fault Value)
      (misshapen what other) :=
  alike_error rfl

theorem mismatch_alike (cause : MismatchCause) (expression other : SExpr) :
    Alike (mismatch cause expression : Except Fault Value)
      (mismatch cause other) :=
  alike_error rfl

theorem unsupported_alike (construct other detail otherDetail : Text) :
    Alike (unsupported construct detail : Except Fault Value)
      (unsupported other otherDetail) :=
  alike_error rfl

/-- Computations that are alike up to an image of the first value go on alike if
their next steps do. -/
theorem Alike.bindMap {image : Value → Other} {computed : Except Fault Value}
    {other : Except Fault Other} {next : Value → Except Fault Image}
    {otherNext : Other → Except Fault Image}
    (first : Alike (computed.map image) other)
    (second : ∀ value, Alike (next value) (otherNext (image value))) :
    Alike (computed >>= next) (other >>= otherNext) := by
  cases computed with
  | error fault =>
      cases other with
      | error otherFault => exact alike_error (Except.error.inj first)
      | ok value => cases first
  | ok value =>
      cases other with
      | error otherFault => cases first
      | ok result =>
          obtain rfl : image value = result := Except.ok.inj first
          exact second value

theorem Alike.bind {other : Except Fault Value} {computed : Except Fault Value}
    {next otherNext : Value → Except Fault Image} (first : Alike computed other)
    (second : ∀ value, Alike (next value) (otherNext value)) :
    Alike (computed >>= next) (other >>= otherNext) := by
  refine bindMap (show Alike (computed.map id) other from ?_) second
  cases computed with
  | error fault => exact first
  | ok value => exact first

theorem mapM_alike {image : Value → Except Fault Image}
    {otherImage : Other → Except Fault Image} {view : Value → Other}
    (values : List Value)
    (each : ∀ value, Alike (image value) (otherImage (view value))) :
    Alike (values.mapM image) ((values.map view).mapM otherImage) := by
  induction values with
  | nil => exact .refl _
  | cons first others inductionHypothesis =>
      rw [List.map_cons, List.mapM_cons, List.mapM_cons]
      exact (each first).bind fun _ => inductionHypothesis.bind fun _ => .refl _

end Alike

/-! ## Expressions without positions -/

namespace SExpr

mutual

/-- The expression with every position moved to the start. -/
def bare : SExpr → SExpr
  | atom leaf _ => atom leaf .start
  | list items _ => list (bareItems items) .start

def bareItems : List SExpr → List SExpr
  | [] => []
  | item :: items => item.bare :: bareItems items

end

theorem bareItems_eq_map (items : List SExpr) :
    bareItems items = items.map bare := by
  induction items with
  | nil => rfl
  | cons item items inductionHypothesis =>
    rw [bareItems, inductionHypothesis, List.map_cons]

@[simp]
theorem bare_atom (leaf : Atom) (position : Position) :
    (atom leaf position).bare = atom leaf .start :=
  rfl

@[simp]
theorem bare_list (items : List SExpr) (position : Position) :
    (list items position).bare = list (items.map bare) .start := by
  rw [bare, bareItems_eq_map]

@[simp]
theorem symbol?_bare (expression : SExpr) :
    expression.bare.symbol? = expression.symbol? := by
  cases expression with
  | atom leaf position => cases leaf <;> rfl
  | list items position => rfl

@[simp]
theorem isSymbol_bare (expression : SExpr) (name : Text) :
    expression.bare.isSymbol name = expression.isSymbol name := by
  rw [isSymbol, isSymbol, symbol?_bare]

@[simp]
theorem isList_bare (expression : SExpr) :
    expression.bare.isList = expression.isList := by
  cases expression with
  | atom leaf position => rfl
  | list items position => rfl

@[simp]
theorem headSymbol?_bare (expression : SExpr) :
    expression.bare.headSymbol? = expression.headSymbol? := by
  match expression with
  | atom leaf position => rfl
  | list [] position => rfl
  | list (head :: items) position => exact symbol?_bare head

mutual

@[simp]
theorem text_bare : (expression : SExpr) →
  expression.bare.text = expression.text
  | atom leaf position => rfl
  | list items position => by
      rw [bare, text, text, itemsText_bareItems items]

theorem itemsText_bareItems : (items : List SExpr) →
  itemsText (bareItems items) = itemsText items
  | [] => rfl
  | [item] => by
      rw [bareItems, bareItems, itemsText, itemsText, text_bare item]
  | item :: next :: items => by
      show item.bare.text ++ " " ++ itemsText (bareItems (next :: items)) =
        item.text ++ " " ++ itemsText (next :: items)
      rw [text_bare item, itemsText_bareItems (next :: items)]

end

@[simp]
theorem isKeyword_bare (expression : SExpr) :
    isKeyword expression.bare = isKeyword expression := by
  cases expression with
  | atom leaf position => cases leaf <;> rfl
  | list items position => rfl

end SExpr

/-! ## Symbols and sorts -/

section Sorts

variable (symbols : SymbolTable) (placeholders : List Text)

theorem readSymbol_bare (what : Text) (expression : SExpr) :
    Alike (readSymbol what expression) (readSymbol what expression.bare) := by
  unfold readSymbol
  rw [SExpr.symbol?_bare]
  split
  · exact .refl _
  · exact expected_alike _ _ _

theorem readNumeral_bare (expression : SExpr) :
    Alike (readNumeral expression) (readNumeral expression.bare) := by
  match expression with
  | .atom (.numeral _) _ => exact .refl _
  | .atom (.decimal _) _ | .atom (.hexadecimal _) _ | .atom (.binary _) _
  | .atom (.string _) _
  | .atom (.symbol _ _) _ | .atom (.keyword _) _ | .list _ _ =>
    exact alike_error rfl

theorem expandAlias_alike (name : Text) (sortAlias : SortAlias)
    (arguments : List SmtSort) (expression other : SExpr) :
    Alike (expandAlias name sortAlias arguments expression)
      (expandAlias name sortAlias arguments other) := by
  unfold expandAlias
  split
  · exact .refl _
  · exact mismatch_alike _ _ _

theorem sortOfName_alike (name : Text) (expression other : SExpr) :
    Alike (sortOfName symbols placeholders name expression)
      (sortOfName symbols placeholders name other) := by
  unfold sortOfName
  split
  · exact .refl _
  split
  · exact expandAlias_alike _ _ _ _ _
  split
  · exact .refl _
  split
  · exact .refl _
  · exact alike_error rfl

theorem indexedSort_bare (items : List SExpr) (expression other : SExpr) :
    Alike (indexedSort items expression)
      (indexedSort (items.map SExpr.bare) other) := by
  match items with
  | [] | [_] => exact misshapen_alike _ _ _
  | head :: first :: others =>
      simp only [indexedSort, List.map_cons, SExpr.symbol?_bare]
      split
      · exact misshapen_alike _ _ _
      · refine (mapM_alike (first :: others) readNumeral_bare).bind
          fun indices => ?_
        split
        · exact .refl _
        · exact unsupported_alike _ _ _ _

theorem appliedSort_alike (name : Text) (arguments : List SmtSort)
    (expression other : SExpr) :
    Alike (appliedSort symbols name arguments expression)
      (appliedSort symbols name arguments other) := by
  unfold appliedSort
  split
  · exact expandAlias_alike _ _ _ _ _
  split
  · exact .refl _
  · exact unsupported_alike _ _ _ _

mutual

/-- Positions do not matter to a sort. -/
theorem readSort_bare : (expression : SExpr) →
    Alike (readSort symbols placeholders expression)
      (readSort symbols placeholders expression.bare)
  | .atom leaf position => by
      rw [SExpr.bare_atom, readSort.eq_def, readSort.eq_def]
      dsimp only
      split
      · exact sortOfName_alike _ _ _ _ _
      · exact expected_alike _ _ _
  | .list [] position => by
      rw [SExpr.bare_list, List.map_nil, readSort, readSort]
      exact expected_alike _ _ _
  | .list (head :: items) position => by
      rw [SExpr.bare_list, List.map_cons, readSort, readSort,
        SExpr.isSymbol_bare]
      split
      · exact indexedSort_bare _ _ _
      · exact (readSymbol_bare _ head).bind fun name =>
          (readSorts_bare items).bind fun arguments =>
          appliedSort_alike _ _ _ _ _

theorem readSorts_bare : (expressions : List SExpr) →
    Alike (readSorts symbols placeholders expressions)
      (readSorts symbols placeholders (expressions.map SExpr.bare))
  | [] => .refl _
  | expression :: expressions => by
      rw [List.map_cons, readSorts, readSorts]
      exact (readSort_bare expression).bind fun _ =>
        (readSorts_bare expressions).bind fun _ =>
        .refl _

end

theorem readSortedName_bare (expression : SExpr) :
    Alike (readSortedName symbols expression)
      (readSortedName symbols expression.bare) := by
  match expression with
  | .list [name, sort] position =>
      rw [SExpr.bare_list]
      exact (readSymbol_bare _ name).bind fun _ =>
        (readSort_bare symbols [] sort).bind fun _ =>
        .refl _
  | .atom _ _ | .list [] _ | .list [_] _ | .list (_ :: _ :: _ :: _) _ =>
      simp only [SExpr.bare_atom, SExpr.bare_list, List.map_cons, List.map_nil]
      exact expected_alike _ _ _

end Sorts

/-! ## Terms -/

section Terms

variable (symbols : SymbolTable) (scope : Scope)

theorem readReference_alike (name : Text) (expression other : SExpr) :
    Alike (readReference symbols scope name expression)
      (readReference symbols scope name other) := by
  unfold readReference
  split
  · exact .refl _
  split
  · exact .refl _
  split
  · split
    · exact .refl _
    · exact mismatch_alike _ _ _
  · split
    · exact mismatch_alike _ _ _
    · exact alike_error rfl

theorem readAtom_alike (leaf : Atom) (position other : Position) :
    Alike (readAtom symbols scope leaf position)
      (readAtom symbols scope leaf other) := by
  cases leaf with
  | symbol name quoted => exact readReference_alike _ _ _ _ _
  | keyword written => exact alike_error rfl
  | numeral _ | decimal _ | hexadecimal _ | binary _ | string _ => exact .refl _

theorem readIndexedName_bare (items : List SExpr) (expression other : SExpr) :
    Alike (readIndexedName items expression)
      (readIndexedName (items.map SExpr.bare) other) := by
  match items with
  | [] | [_] => exact misshapen_alike _ _ _
  | head :: first :: others =>
      simp only [readIndexedName, List.map_cons, SExpr.symbol?_bare]
      split
      · exact misshapen_alike _ _ _
      split
      · exact .refl _
      · exact (mapM_alike (first :: others) readNumeral_bare).bind fun _ =>
          .refl _

theorem readBitVector_bare (digits : Text) (width : SExpr) :
    Alike (readBitVector digits width) (readBitVector digits width.bare) := by
  refine (readNumeral_bare width).bind fun bits => ?_
  split
  · exact mismatch_alike _ _ _
  · exact .refl _

theorem readFunctionArray_bare (function : SExpr) :
    Alike (readFunctionArray symbols function)
      (readFunctionArray symbols function.bare) := by
  refine (readSymbol_bare _ function).bind fun name => ?_
  split
  · exact alike_error rfl
  · exact .refl _

theorem readIndexedConstant_bare (items : List SExpr)
    (expression other : SExpr) :
    Alike (readIndexedConstant symbols items expression)
      (readIndexedConstant symbols (items.map SExpr.bare) other) := by
  have otherwise : Alike
      (do
        let named ← readIndexedName items expression
        mismatch (.indexedConstant named.fst) expression : Except Fault Term)
      (do
        let named ← readIndexedName (items.map SExpr.bare) other
        mismatch (.indexedConstant named.fst) other) :=
    (readIndexedName_bare items expression other).bind fun _ =>
      mismatch_alike _ _ _
  match items with
  | [head, argument] =>
      simp only [readIndexedConstant, List.map_cons, List.map_nil,
        SExpr.symbol?_bare]
      split
      · exact otherwise
      split
      · exact readBitVector_bare _ _
      split
      · exact readFunctionArray_bare _ _
      · exact otherwise
  | [] | [_] | _ :: _ :: _ :: _ => exact otherwise

theorem readQualified_bare (items : List SExpr) (expression other : SExpr) :
    Alike (readQualified symbols scope items expression)
      (readQualified symbols scope (items.map SExpr.bare) other) := by
  match items with
  | [head, sortExpression] =>
      simp only [readQualified, List.map_cons, List.map_nil, SExpr.symbol?_bare]
      split
      · exact misshapen_alike _ _ _
      · refine (readSort_bare symbols [] sortExpression).bind fun stated =>
          (readReference_alike symbols scope _ head head.bare).bind fun term =>
            ?_
        split
        · exact .refl _
        · exact mismatch_alike _ _ _
  | [] | [_] | _ :: _ :: _ :: _ => exact misshapen_alike _ _ _

theorem requireArguments_alike (name : Text) (expression other : SExpr)
    (place : Nat) (arguments expected : List SmtSort) :
    Alike (requireArguments name expression place arguments expected)
      (requireArguments name other place arguments expected) := by
  induction arguments generalizing place expected with
  | nil => exact .refl _
  | cons got arguments inductionHypothesis =>
      cases expected with
      | nil => exact .refl _
      | cons wanted expected =>
          rw [requireArguments, requireArguments]
          split
          · exact inductionHypothesis _ _
          · exact mismatch_alike _ _ _

theorem applyConstantArray_alike (stated : SmtSort) (arguments : List Term)
    (expression other : SExpr) :
    Alike (applyConstantArray stated arguments expression)
      (applyConstantArray stated arguments other) := by
  unfold applyConstantArray
  split
  · split
    · exact .refl _
    · exact mismatch_alike _ _ _
  · exact mismatch_alike _ _ _

/-- The expressions and places that are named in faults do not decide what a
name stands for. -/
theorem resolveHead_alike (name : Text) (indices : List Nat)
    (arguments : List SmtSort) (expression other : SExpr)
    (headPlace otherPlace : Place) :
    Alike (resolveHead symbols name indices arguments expression headPlace)
      (resolveHead symbols name indices arguments other otherPlace) := by
  unfold resolveHead
  split
  · split
    · exact (requireArguments_alike _ _ _ _ _ _).bind fun _ => .refl _
    · exact mismatch_alike _ _ _
  · split
    · split
      · exact .refl _
      · exact mismatch_alike _ _ _
    · exact alike_error rfl

theorem applyName_alike (name : Text) (indices : List Nat)
    (stated : Option SmtSort) (arguments : List Term) (expression other : SExpr)
    (headPlace otherPlace : Place) :
    Alike (applyName symbols scope name indices stated arguments expression
        headPlace)
      (applyName symbols scope name indices stated arguments other
        otherPlace) := by
  unfold applyName
  split
  · exact mismatch_alike _ _ _
  split
  · exact applyConstantArray_alike _ _ _ _
  · refine (resolveHead_alike symbols _ _ _ _ _ _ _).bind fun ⟨head, sort⟩ => ?_
    dsimp only
    split
    · exact mismatch_alike _ _ _
    · exact .refl _

/-- Positions do not matter to an application of a list. -/
theorem applyList_bare (headItems : List SExpr)
    (head otherHead expression other : SExpr) (arguments : List Term) :
    Alike (applyList symbols scope headItems head arguments expression)
      (applyList symbols scope (headItems.map SExpr.bare) otherHead arguments
        other) := by
  cases headItems with
  | nil => exact alike_error rfl
  | cons mark items =>
      simp only [applyList, List.map_cons, SExpr.isSymbol_bare]
      split
      · exact (readIndexedName_bare items head otherHead).bind fun _ =>
          applyName_alike _ _ _ _ _ _ _ _ _ _
      split
      · rcases items with _ | ⟨inner, _ | ⟨sortExpression, _ | ⟨third, others⟩⟩⟩
        case cons.cons.nil =>
          simp only [List.map_cons, List.map_nil]
          refine (readSort_bare symbols [] sortExpression).bind fun stated => ?_
          cases inner with
          | list innerItems position =>
              cases innerItems with
              | nil => exact .refl _
              | cons innerMark innerItems =>
                  simp only [SExpr.bare_list, List.map_cons,
                    SExpr.isSymbol_bare]
                  split
                  · exact (readIndexedName_bare innerItems _ _).bind fun _ =>
                      applyName_alike _ _ _ _ _ _ _ _ _ _
                  · exact alike_error rfl
          | atom leaf position =>
              cases leaf with
              | symbol name quoted => exact applyName_alike _ _ _ _ _ _ _ _ _ _
              | numeral | decimal | hexadecimal | binary | string | keyword =>
                  exact alike_error rfl
        all_goals exact misshapen_alike _ _ _
      · exact alike_error rfl

theorem readAttributes_bare : (expressions : List SExpr) →
    Alike (readAttributes expressions)
      (readAttributes (expressions.map SExpr.bare))
  | [] => .refl _
  | [.atom (.keyword key) position] => .refl _
  | .atom (.keyword key) position :: next :: others => by
      rw [List.map_cons, List.map_cons, SExpr.bare_atom, readAttributes.eq_def,
        readAttributes.eq_def]
      dsimp only
      rw [SExpr.isKeyword_bare]
      split
      · exact (readAttributes_bare (next :: others)).bind fun _ => .refl _
      · rw [SExpr.text_bare]
        exact (readAttributes_bare others).bind fun _ => .refl _
  | .list _ _ :: _ => alike_error rfl
  | .atom (.numeral _) _ :: _ | .atom (.decimal _) _ :: _
  | .atom (.hexadecimal _) _ :: _
  | .atom (.binary _) _ :: _ | .atom (.string _) _ :: _
  | .atom (.symbol _ _) _ :: _ =>
      alike_error rfl

mutual

/-- A term is read alike wherever it stands. -/
theorem readTerm_bare : (expression : SExpr) → (scope : Scope) →
    Alike (readTerm symbols scope expression)
      (readTerm symbols scope expression.bare)
  | .atom leaf position, scope => by
      rw [SExpr.bare_atom, readTerm, readTerm]
      exact readAtom_alike _ _ _ _ _
  | .list [] position, scope => alike_error rfl
  | .list (.list headItems headPosition :: rest) position, scope => by
      rw [SExpr.bare_list, List.map_cons, SExpr.bare_list, readTerm, readTerm,
        List.isEmpty_map]
      split
      · exact alike_error rfl
      · exact (readTerms_bare rest scope).bind fun _ =>
          applyList_bare _ _ _ _ _ _ _ _
  | .list (.atom leaf headPosition :: rest) position, scope => by
      rw [SExpr.bare_list, List.map_cons, SExpr.bare_atom]
      cases leaf with
      | symbol name quoted =>
          rw [readTerm.eq_def, readTerm.eq_def]
          dsimp only
          split
          · match rest with
            | [.list (first :: others) listPosition, body] =>
                simp only [List.map_cons, List.map_nil, SExpr.bare_list]
                exact (readBindings_bare (first :: others) scope []).bind
                  fun _ =>
                  (readTerm_bare body _).bind fun _ => .refl _
            | [] | [.atom _ _] | [.list [] _] | [.list (_ :: _) _]
            | [.atom _ _, _]
            | [.list [] _, _] | .atom _ _ :: _ :: _ :: _
            | .list [] _ :: _ :: _ :: _
            | .list (_ :: _) _ :: _ :: _ :: _ => exact alike_error rfl
          split
          · match rest with
            | [.list (first :: others) listPosition, body] =>
                simp only [List.map_cons, List.map_nil, SExpr.bare_list]
                refine (mapM_alike (first :: others)
                  (readSortedName_bare symbols)).bind
                  fun binders => (readTerm_bare body _).bind fun term => ?_
                split
                · exact .refl _
                · exact mismatch_alike _ _ _
            | [] | [.atom _ _] | [.list [] _] | [.list (_ :: _) _]
            | [.atom _ _, _]
            | [.list [] _, _] | .atom _ _ :: _ :: _ :: _
            | .list [] _ :: _ :: _ :: _
            | .list (_ :: _) _ :: _ :: _ :: _ => exact alike_error rfl
          split
          · match rest with
            | inner :: first :: others =>
                simp only [List.map_cons]
                exact (readTerm_bare inner scope).bind fun _ =>
                  (readAttributes_bare (first :: others)).bind fun _ => .refl _
            | [] | [_] => exact alike_error rfl
          split
          · exact readIndexedConstant_bare _ _ _ _
          split
          · exact readQualified_bare _ _ _ _ _
          split
          · exact unsupported_alike _ _ _ _
          · exact (readTerms_bare rest scope).bind fun _ =>
              applyName_alike _ _ _ _ _ _ _ _ _ _
      | numeral _ | decimal _ | hexadecimal _ | binary _ | string _
      | keyword _ =>
          exact alike_error rfl

theorem readTerms_bare : (expressions : List SExpr) → (scope : Scope) →
    Alike (readTerms symbols scope expressions)
      (readTerms symbols scope (expressions.map SExpr.bare))
  | [], scope => .refl _
  | expression :: expressions, scope => by
      rw [List.map_cons, readTerms, readTerms]
      exact (readTerm_bare expression scope).bind fun _ =>
        (readTerms_bare expressions scope).bind fun _ => .refl _

theorem readBindings_bare : (expressions : List SExpr) → (scope : Scope) →
    (seen : List Text) →
    Alike (readBindings symbols scope seen expressions)
      (readBindings symbols scope seen (expressions.map SExpr.bare))
  | [], scope, seen => .refl _
  | .list [nameExpression, value] position :: others, scope, seen => by
      rw [List.map_cons, SExpr.bare_list, List.map_cons, List.map_cons,
        List.map_nil, readBindings, readBindings]
      refine (readSymbol_bare _ nameExpression).bind fun name => ?_
      dsimp only
      split
      · exact alike_error rfl
      · exact (readTerm_bare value scope).bind fun _ =>
          (readBindings_bare others scope _).bind fun _ => .refl _
  | .atom _ _ :: _, scope, seen => alike_error rfl
  | .list [] _ :: _, scope, seen => alike_error rfl
  | .list [_] _ :: _, scope, seen => alike_error rfl
  | .list (_ :: _ :: _ :: _) _ :: _, scope, seen => alike_error rfl

end

end Terms

end ModelAudit
