import ModelAudit.Proofs.SymbolGrowth
import ModelAudit.Proofs.TermSources

/-!
# Reading over a larger table

A table with the same aliases and with more sorts and symbols reads every term
that the smaller one reads, and makes the same term of it. A symbol that is new
to it is no operator and no truth value, so no name changes its meaning.
-/

namespace ModelAudit

namespace Outcome

variable {Fault Value Image : Type} {left right : Except Fault Value}

/-- What the first computation returns, the second one returns as well. -/
def Yields (left right : Except Fault Value) : Prop :=
  ∀ value, left = .ok value → right = .ok value

theorem Yields.refl (computed : Except Fault Value) :
    Yields computed computed :=
  fun _ returned => returned

theorem yields_of_error (fault : Fault) : Yields (.error fault) right :=
  fun _ returned => nomatch returned

theorem Yields.bind {next otherNext : Value → Except Fault Image}
    (first : Yields left right)
    (second : ∀ value, Yields (next value) (otherNext value)) :
    Yields (left >>= next) (right >>= otherNext) := by
  intro image returned
  obtain ⟨value, computed, returned⟩ := bind_eq_ok.mp returned
  rw [first value computed, ok_bind]
  exact second value image returned

theorem yields_mapM {Element : Type}
    {image other : Element → Except Fault Value}
    (each : ∀ element, Yields (image element) (other element))
    (elements : List Element) :
    Yields (elements.mapM image) (elements.mapM other) := by
  induction elements with
  | nil => exact .refl _
  | cons element elements inductionHypothesis =>
      rw [List.mapM_cons, List.mapM_cons]
      exact (each element).bind fun _ =>
        inductionHypothesis.bind fun _ => .refl _

end Outcome

open Outcome

theorem Operator.isBuiltinName_of_ofPlainName? {name : Text}
    {operator : Operator} (known : ofPlainName? name = some operator) :
    isBuiltinName name = true := by
  obtain ⟨found, _⟩ := Option.filter_eq_some_iff.mp known
  rw [isBuiltinName, found, Option.isSome_some, Bool.true_or]

namespace SymbolTable

/-- The symbols of the first table are in the second one, with the same
signatures. -/
def SignaturesIn (symbols larger : SymbolTable) : Prop :=
  ∀ name declaration, symbols.lookup? name = some declaration →
    ∃ other, larger.lookup? name = some other ∧
      other.arguments = declaration.arguments ∧
      other.result = declaration.result

theorem SignaturesIn.refl (symbols : SymbolTable) :
    symbols.SignaturesIn symbols :=
  fun _ declaration found => ⟨declaration, found, rfl, rfl⟩

theorem SignaturesIn.trans {symbols larger largest : SymbolTable}
    (first : symbols.SignaturesIn larger)
    (second : larger.SignaturesIn largest) :
    symbols.SignaturesIn largest := by
  intro name declaration found
  obtain ⟨other, otherFound, arguments, result⟩ := first name declaration found
  obtain ⟨last, lastFound, lastArguments, lastResult⟩ :=
    second name other otherFound
  exact ⟨last, lastFound, lastArguments.trans arguments,
    lastResult.trans result⟩

/-- The larger table reads every sort that the table reads. -/
structure SortsIn (symbols larger : SymbolTable) : Prop where
  sorts : ∀ name, symbols.sorts.find? name = some 0 →
      larger.sorts.find? name = some 0
  aliases : larger.aliases = symbols.aliases

/-- The larger table knows what the table knows, and as the same. What else it
has bears no name of an operator or of a truth value. -/
structure ExtendedBy (symbols larger : SymbolTable) :
    Prop extends SortsIn symbols larger where
  signatures : symbols.SignaturesIn larger
  unreserved : ∀ name, isBuiltinName name = true → symbols.lookup? name = none →
    larger.lookup? name = none

theorem SortsIn.refl (symbols : SymbolTable) : symbols.SortsIn symbols :=
  ⟨fun _ known => known, rfl⟩

theorem ExtendedBy.refl (symbols : SymbolTable) : symbols.ExtendedBy symbols :=
  ⟨.refl symbols, .refl symbols, fun _ _ absent => absent⟩

theorem ExtendedBy.trans {symbols larger largest : SymbolTable}
    (first : symbols.ExtendedBy larger) (second : larger.ExtendedBy largest) :
    symbols.ExtendedBy largest where
  sorts name known := second.sorts name (first.sorts name known)
  aliases := second.aliases.trans first.aliases
  signatures := first.signatures.trans second.signatures
  unreserved name builtin absent :=
    second.unreserved name builtin (first.unreserved name builtin absent)

end SymbolTable

/-! ## Sorts -/

section Sorts

variable {symbols larger : SymbolTable}

theorem sortOfName_yields (sortsIn : symbols.SortsIn larger)
    (placeholders : List Text) (name : Text) (expression : SExpr) :
    Yields (sortOfName symbols placeholders name expression)
      (sortOfName larger placeholders name expression) := by
  unfold sortOfName
  rw [sortsIn.aliases]
  split
  · exact .refl _
  split
  · exact .refl _
  split
  · exact .refl _
  split
  · next known =>
    rw [if_pos (sortsIn.sorts name known)]
    exact .refl _
  · exact yields_of_error _

theorem appliedSort_congr (sameAliases : larger.aliases = symbols.aliases)
    (name : Text) (arguments : List SmtSort) (expression : SExpr) :
    appliedSort larger name arguments expression =
      appliedSort symbols name arguments expression := by
  rw [appliedSort, appliedSort, sameAliases]

mutual

/-- A sort that is read over a table is the same over a larger one. -/
theorem readSort_yields (sortsIn : symbols.SortsIn larger)
    (placeholders : List Text) :
    (expression : SExpr) →
    Yields (readSort symbols placeholders expression)
      (readSort larger placeholders expression)
  | .atom leaf position => by
      rw [readSort.eq_def, readSort.eq_def]
      dsimp only
      split
      · exact sortOfName_yields sortsIn _ _ _
      · exact .refl _
  | .list [] position => by
      rw [readSort, readSort]
      exact .refl _
  | .list (head :: items) position => by
      rw [readSort, readSort]
      split
      · exact .refl _
      · refine (Yields.refl _).bind fun name =>
          (readSorts_yields sortsIn placeholders items).bind fun arguments => ?_
        rw [appliedSort_congr sortsIn.aliases]
        exact .refl _

theorem readSorts_yields (sortsIn : symbols.SortsIn larger)
    (placeholders : List Text) :
    (expressions : List SExpr) →
    Yields (readSorts symbols placeholders expressions)
      (readSorts larger placeholders expressions)
  | [] => .refl _
  | expression :: expressions => by
      rw [readSorts, readSorts]
      exact (readSort_yields sortsIn placeholders expression).bind fun _ =>
        (readSorts_yields sortsIn placeholders expressions).bind fun _ =>
          .refl _

end

theorem readSortedName_yields (sortsIn : symbols.SortsIn larger)
    (expression : SExpr) :
    Yields (readSortedName symbols expression)
      (readSortedName larger expression) := by
  match expression with
  | .list [name, sort] _ =>
      rw [readSortedName, readSortedName]
      exact (Yields.refl _).bind fun _ =>
        (readSort_yields sortsIn [] sort).bind fun _ => .refl _
  | .atom _ _ | .list [] _ | .list [_] _ | .list (_ :: _ :: _ :: _) _ =>
    exact .refl _

theorem readSortedNames_yields (sortsIn : symbols.SortsIn larger)
    (expressions : List SExpr) :
    Yields (expressions.mapM (readSortedName symbols))
      (expressions.mapM (readSortedName larger)) :=
  yields_mapM (readSortedName_yields sortsIn) expressions

end Sorts

/-! ## Terms -/

section Terms

variable {symbols larger : SymbolTable}

/-- A name that is read alone means the same over a larger table. -/
theorem readReference_yields (extended : symbols.ExtendedBy larger)
    (scope : Scope) (name : Text) (expression : SExpr) :
    Yields (readReference symbols scope name expression)
      (readReference larger scope name expression) := by
  unfold readReference
  split
  · exact .refl _
  split
  · exact .refl _
  cases found : symbols.lookup? name with
  | none =>
      dsimp only
      split <;> exact yields_of_error _
  | some declaration =>
      obtain ⟨other, otherFound, arguments, result⟩ :=
        extended.signatures name declaration found
      rw [otherFound]
      simp only [Declaration.isConstant, arguments, result]
      exact .refl _

theorem readAtom_yields (extended : symbols.ExtendedBy larger) (scope : Scope)
    (leaf : Atom) (position : Position) :
    Yields (readAtom symbols scope leaf position)
      (readAtom larger scope leaf position) := by
  cases leaf with
  | symbol name quoted => exact readReference_yields extended _ _ _
  | numeral _ | decimal _ | hexadecimal _ | binary _ | string _ | keyword _ =>
    exact .refl _

theorem readFunctionArray_yields (extended : symbols.ExtendedBy larger)
    (function : SExpr) :
    Yields (readFunctionArray symbols function)
      (readFunctionArray larger function) := by
  refine (Yields.refl _).bind fun name => ?_
  cases found : symbols.lookup? name with
  | none => exact yields_of_error _
  | some declaration =>
      obtain ⟨other, otherFound, arguments, result⟩ :=
        extended.signatures name declaration found
      rw [otherFound]
      dsimp only
      rw [arguments, result]
      exact .refl _

theorem readIndexedConstant_yields (extended : symbols.ExtendedBy larger)
    (items : List SExpr) (expression : SExpr) :
    Yields (readIndexedConstant symbols items expression)
      (readIndexedConstant larger items expression) := by
  unfold readIndexedConstant
  split
  · split
    · exact .refl _
    split
    · exact .refl _
    split
    · exact readFunctionArray_yields extended _
    · exact .refl _
  · exact .refl _

theorem readQualified_yields (extended : symbols.ExtendedBy larger)
    (scope : Scope) (items : List SExpr) (expression : SExpr) :
    Yields (readQualified symbols scope items expression)
      (readQualified larger scope items expression) := by
  unfold readQualified
  split
  · split
    · exact .refl _
    · exact (readSort_yields extended.toSortsIn [] _).bind fun stated =>
        (readReference_yields extended _ _ _).bind fun _ => .refl _
  · exact .refl _

/-- A name that stands for a head stands for the same one over a larger
table. -/
theorem resolveHead_yields (extended : symbols.ExtendedBy larger) (name : Text)
    (indices : List Nat) (arguments : List SmtSort) (expression : SExpr)
    (headPlace : Place) :
    Yields (resolveHead symbols name indices arguments expression headPlace)
      (resolveHead larger name indices arguments expression headPlace) := by
  rintro ⟨head, sort⟩ resolved
  refine resolveHead_eq_ok_iff.mpr ?_
  cases resolveHead_eq_ok_iff.mp resolved with
  | function found same =>
      obtain ⟨other, otherFound, sameArguments, sameResult⟩ :=
        extended.signatures name _ found
      exact sameResult ▸ .function otherFound (same.trans sameArguments.symm)
  | operator absent known ruled fits =>
      have unreserved :=
        extended.unreserved name (Operator.isBuiltinName_of_ofPlainName? known)
      exact .operator (unreserved absent) known ruled fits

theorem applyName_yields (extended : symbols.ExtendedBy larger) (scope : Scope)
    (name : Text) (indices : List Nat) (stated : Option SmtSort)
    (arguments : List Term) (expression : SExpr)
    (headPlace : Place) :
    Yields (applyName symbols scope name indices stated arguments expression
        headPlace)
      (applyName larger scope name indices stated arguments expression
        headPlace) := by
  unfold applyName
  split
  · exact .refl _
  split
  · exact .refl _
  · exact (resolveHead_yields extended _ _ _ _ _).bind fun _ => .refl _

/-- An application of a list that is accepted comes to the same term over a
larger table. -/
theorem applyList_yields (extended : symbols.ExtendedBy larger) (scope : Scope)
    (headItems : List SExpr) (head : SExpr) (arguments : List Term)
    (expression : SExpr) :
    Yields (applyList symbols scope headItems head arguments expression)
      (applyList larger scope headItems head arguments expression) := by
  unfold applyList
  dsimp only
  split
  · exact .refl _
  split
  · exact (Yields.refl _).bind fun _ => applyName_yields extended _ _ _ _ _ _ _
  split
  · split
    · refine (readSort_yields extended.toSortsIn [] _).bind fun stated => ?_
      split
      · exact .refl _
      · split
        · exact (Yields.refl _).bind fun _ =>
            applyName_yields extended _ _ _ _ _ _ _
        · exact .refl _
      · exact applyName_yields extended _ _ _ _ _ _ _
      · exact .refl _
    · exact .refl _
  · exact .refl _

mutual

/-- What is read over a table is read over a larger one as well. -/
theorem readTerm_yields (extended : symbols.ExtendedBy larger) :
    (expression : SExpr) → (scope : Scope) →
    Yields (readTerm symbols scope expression)
      (readTerm larger scope expression)
  | .atom leaf position, scope => by
      rw [readTerm, readTerm]
      exact readAtom_yields extended _ _ _
  | .list [] position, scope => yields_of_error _
  | .list (.list headItems headPosition :: rest) position, scope => by
      rw [readTerm, readTerm]
      split
      · exact .refl _
      · exact (readTerms_yields extended rest scope).bind fun _ =>
          applyList_yields extended _ _ _ _ _
  | .list (.atom leaf headPosition :: rest) position, scope => by
      rw [readTerm.eq_def, readTerm.eq_def]
      dsimp only
      split
      · split
        · split
          · exact (readBindings_yields extended _ scope []).bind fun _ =>
              (readTerm_yields extended _ _).bind fun _ => .refl _
          · exact .refl _
        split
        · split
          · exact (readSortedNames_yields extended.toSortsIn _).bind fun _ =>
              (readTerm_yields extended _ _).bind fun _ => .refl _
          · exact .refl _
        split
        · split
          · exact (readTerm_yields extended _ scope).bind fun _ => .refl _
          · exact .refl _
        split
        · exact readIndexedConstant_yields extended _ _
        split
        · exact readQualified_yields extended _ _ _
        split
        · exact .refl _
        · exact (readTerms_yields extended rest scope).bind fun _ =>
            applyName_yields extended _ _ _ _ _ _ _
      · exact .refl _

theorem readTerms_yields (extended : symbols.ExtendedBy larger) :
    (expressions : List SExpr) → (scope : Scope) →
    Yields (readTerms symbols scope expressions)
      (readTerms larger scope expressions)
  | [], scope => .refl _
  | expression :: expressions, scope => by
      rw [readTerms, readTerms]
      exact (readTerm_yields extended expression scope).bind fun _ =>
        (readTerms_yields extended expressions scope).bind fun _ => .refl _

theorem readBindings_yields (extended : symbols.ExtendedBy larger) :
    (expressions : List SExpr) → (scope : Scope) → (seen : List Text) →
    Yields (readBindings symbols scope seen expressions)
      (readBindings larger scope seen expressions)
  | [], scope, seen => .refl _
  | .list [nameExpression, value] position :: others, scope, seen => by
      rw [readBindings, readBindings]
      refine (Yields.refl _).bind fun name => ?_
      dsimp only
      split
      · exact yields_of_error _
      · exact (readTerm_yields extended value scope).bind fun _ =>
          (readBindings_yields extended others scope _).bind fun _ => .refl _
  | .atom _ _ :: _, scope, seen => .refl _
  | .list [] _ :: _, scope, seen => .refl _
  | .list [_] _ :: _, scope, seen => .refl _
  | .list (_ :: _ :: _ :: _) _ :: _, scope, seen => .refl _

end

end Terms

end ModelAudit
