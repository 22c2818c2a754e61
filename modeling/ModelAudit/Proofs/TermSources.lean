import ModelAudit.Proofs.Outcome
import ModelAudit.Script.TermReading

/-!
# What terms have been read from

The head that an applied name stands for over the sorts of the arguments, the
name that a list in the place of a function gives, and the expressions behind
the bindings of a let.
-/

namespace ModelAudit

open Outcome

variable {symbols : SymbolTable} {scope : Scope} {name : Text}
  {indices : List Nat}

theorem readSymbol_eq_ok {what name : Text} {expression : SExpr} :
    readSymbol what expression = .ok name ↔ expression.symbol? = some name := by
  rw [readSymbol]
  cases expression.symbol? with
  | none => simp [expected]
  | some other => rw [Except.ok.injEq, Option.some.injEq]

/-! ## Heads -/

theorem requireArguments_eq_ok_iff {expression : SExpr} {place : Nat}
    {arguments expected : List SmtSort}
    (lengths : arguments.length = expected.length) :
    requireArguments name expression place arguments expected = .ok () ↔
      arguments = expected := by
  induction arguments generalizing place expected with
  | nil => simp [requireArguments, List.length_eq_zero_iff.mp lengths.symm]
  | cons got arguments inductionHypothesis =>
      cases expected with
      | nil => cases lengths
      | cons wanted expected =>
          have rest :=
            @inductionHypothesis (place + 1) expected (Nat.succ.inj lengths)
          rw [requireArguments, List.cons.injEq, ← rest]
          split
          · next same => simp [same]
          · next different => simp [different, mismatch]

/-- The head that a name stands for over arguments of these sorts, with the sort
of the application. An operator gives way to a declared symbol. -/
inductive Resolves (symbols : SymbolTable) (name : Text) (indices : List Nat)
    (arguments : List SmtSort) : Head → SmtSort → Prop
  | function {declaration : Declaration}
      (found : symbols.lookup? name = some declaration)
      (same : arguments = declaration.arguments) :
      Resolves symbols name indices arguments
        (.function name) declaration.result
  | operator {operator : Operator} {rule : SignatureRule} {sort : SmtSort}
      (absent : symbols.lookup? name = none)
      (known : Operator.ofPlainName? name = some operator)
      (ruled : operator.rule? = some rule)
      (fits : rule.resultSort operator arguments (indices.map Int.ofNat) =
        .ok sort) :
      Resolves symbols name indices arguments (.operator operator) sort

/-- A name stands for the head that the relation says, and for no other. -/
theorem resolveHead_eq_ok_iff {arguments : List SmtSort} {expression : SExpr}
    {headPlace : Place} {head : Head} {sort : SmtSort} :
    resolveHead symbols name indices arguments expression headPlace =
        .ok (head, sort) ↔
      Resolves symbols name indices arguments head sort := by
  constructor
  · intro resolved
    rw [resolveHead] at resolved
    split at resolved
    · next declaration found =>
      split at resolved
      · next sameLength =>
        obtain ⟨accepted, resolved⟩ := check_bind_eq_ok.mp resolved
        obtain ⟨rfl, rfl⟩ := Prod.mk.inj (Except.ok.inj resolved)
        exact .function found
          ((requireArguments_eq_ok_iff sameLength).mp accepted)
      · cases resolved
    next absent =>
    split at resolved
    · next operator rule known =>
      obtain ⟨candidate, plain, ruled⟩ := Option.bind_eq_some_iff.mp known
      obtain ⟨found, candidateRule, pair⟩ := Option.map_eq_some_iff.mp ruled
      obtain ⟨rfl, rfl⟩ := Prod.mk.inj pair
      split at resolved
      · next fits =>
        obtain ⟨rfl, rfl⟩ := Prod.mk.inj (Except.ok.inj resolved)
        exact .operator absent plain candidateRule fits
      · cases resolved
    · cases resolved
  · intro resolves
    rw [resolveHead]
    cases resolves with
    | function found same =>
        subst same
        rw [found]
        dsimp only
        rw [if_pos rfl, (requireArguments_eq_ok_iff rfl).mpr rfl]
        rfl
    | operator absent known ruled fits =>
        rw [absent]
        dsimp only
        rw [known, Option.bind_some, ruled, Option.map_some]
        dsimp only
        rw [fits]

/-- Only a name that is not bound can be applied. With a stated sort it may be a
constant array; otherwise the stated sort has to be the one that the head
gives. -/
theorem applyName_eq_ok {stated : Option SmtSort} {arguments : List Term}
    {expression : SExpr} {headPlace : Place} {term : Term}
    (applied : applyName symbols scope name indices stated arguments expression
        headPlace =
      .ok term) :
    scope.find? name = none ∧
      ((∃ index value sort, name = Operator.constantArray.name ∧
        stated = some sort ∧
          arguments = [value] ∧ sort.arrayParts? = some (index, value.sort) ∧
          term = .application (.operator .constantArray) [] [value] sort) ∨
        ∃ head sort,
          Resolves symbols name indices (arguments.map Term.sort) head sort ∧
          (∀ other, stated = some other → other = sort) ∧
          term = .application head indices arguments sort) := by
  rw [applyName] at applied
  split at applied
  · cases applied
  next absent =>
  refine ⟨by simpa [Table.has] using absent, ?_⟩
  split at applied
  · next sort array =>
    obtain ⟨isStated, isConstant⟩ := Option.filter_eq_some_iff.mp array
    unfold applyConstantArray at applied
    split at applied
    · next index element value parts =>
      split at applied
      · next same =>
        obtain rfl := Except.ok.inj applied
        exact .inl ⟨index, value, sort, of_decide_eq_true isConstant, isStated,
          rfl, same ▸ parts, rfl⟩
      · cases applied
    · cases applied
  · obtain ⟨⟨head, sort⟩, resolved, applied⟩ := bind_eq_ok.mp applied
    dsimp only at applied
    split at applied
    · cases applied
    · next agrees =>
      obtain rfl := Except.ok.inj applied
      refine .inr ⟨head, sort, resolveHead_eq_ok_iff.mp resolved, ?_, rfl⟩
      rintro other rfl
      simpa [Option.filter] using agrees

/-! ## Lists in the place of a function -/

/-- The name that a list gives, with its indices and its stated sort. -/
inductive GivesName (symbols : SymbolTable) (head : SExpr) :
    List SExpr → Text → List Nat → Option SmtSort → Prop
  | indexed {mark : SExpr} {items : List SExpr} {name : Text}
      {indices : List Nat} (isMark : mark.isSymbol "_" = true)
      (read : readIndexedName items head = .ok (name, indices)) :
      GivesName symbols head (mark :: items) name indices none
  | qualified {mark sortExpression : SExpr} {name : Text} {quoted : Bool}
      {position : Position} {stated : SmtSort}
      (isMark : mark.isSymbol "as" = true)
      (statedRead : readSort symbols [] sortExpression = .ok stated) :
      GivesName symbols head [mark, .atom (.symbol name quoted) position,
        sortExpression] name [] (some stated)
  | qualifiedIndexed {mark innerMark sortExpression : SExpr}
      {innerItems : List SExpr} {position : Position} {name : Text}
      {indices : List Nat} {stated : SmtSort}
      (isMark : mark.isSymbol "as" = true)
      (isInnerMark : innerMark.isSymbol "_" = true)
      (statedRead : readSort symbols [] sortExpression = .ok stated)
      (read : readIndexedName innerItems
          (.list (innerMark :: innerItems) position) =
        .ok (name, indices)) :
      GivesName symbols head [mark, .list (innerMark :: innerItems) position,
        sortExpression] name indices (some stated)

/-- Whatever list stands in the place of a function, its name is applied to the
arguments. -/
theorem exists_givesName {items : List SExpr} {head expression : SExpr}
    {arguments : List Term} {term : Term}
    (applied : applyList symbols scope items head arguments expression =
      .ok term) :
    ∃ name indices stated, GivesName symbols head items name indices stated ∧
      applyName symbols scope name indices stated arguments expression
        head.place = .ok term := by
  unfold applyList at applied
  dsimp only at applied
  split at applied
  · cases applied
  split at applied
  · next isMark =>
    obtain ⟨⟨name, indices⟩, read, applied⟩ := bind_eq_ok.mp applied
    exact ⟨name, indices, none, .indexed isMark read, applied⟩
  split at applied
  · next isMark =>
    split at applied
    · obtain ⟨stated, statedRead, applied⟩ := bind_eq_ok.mp applied
      split at applied
      · cases applied
      · split at applied
        · next isInnerMark =>
          obtain ⟨⟨name, indices⟩, read, applied⟩ := bind_eq_ok.mp applied
          exact ⟨name, indices, some stated,
            .qualifiedIndexed isMark isInnerMark statedRead read, applied⟩
        · cases applied
      · exact ⟨_, [], some stated, .qualified isMark statedRead, applied⟩
      · cases applied
    · cases applied
  · cases applied

/-! ## Bindings -/

theorem readBindings_cons {nameExpression : SExpr} {seen : List Text}
    (named : nameExpression.symbol? = some name) (unseen : name ∉ seen)
    (value : SExpr)
    (position : Position) (others : List SExpr) :
    readBindings symbols scope seen
        (.list [nameExpression, value] position :: others) = (do
          let bound ← readTerm symbols scope value
          let bindings ← readBindings symbols scope (name :: seen) others
          return (name, bound) :: bindings) := by
  have fresh : ¬seen.contains name = true := by simpa using unseen
  rw [readBindings, readSymbol_eq_ok.mpr named]
  dsimp only [ok_bind]
  rw [if_neg fresh]

/-- The parts of a binding that was read, with the bindings after it. -/
structure BindingParts (symbols : SymbolTable) (scope : Scope)
    (seen : List Text) (nameExpression value : SExpr) (others : List SExpr)
    (name : Text) (bound : Term)
    (rest : List (Text × Term)) : Prop where
  named : nameExpression.symbol? = some name
  unseen : name ∉ seen
  value : readTerm symbols scope value = .ok bound
  others : readBindings symbols scope (name :: seen) others = .ok rest

/-- A list of bindings that is read starts with a name and its value. -/
theorem exists_bindingParts {seen : List Text} {first : SExpr}
    {others : List SExpr} {bindings : List (Text × Term)}
    (read : readBindings symbols scope seen (first :: others) = .ok bindings) :
    ∃ nameExpression value position name bound rest,
      first = .list [nameExpression, value] position ∧
        bindings = (name, bound) :: rest ∧
        BindingParts symbols scope seen nameExpression value others name bound
          rest := by
  match first with
  | .list [nameExpression, value] position =>
      rw [readBindings] at read
      obtain ⟨name, named, read⟩ := bind_eq_ok.mp read
      dsimp only at read
      split at read
      · cases read
      next fresh =>
      obtain ⟨bound, boundRead, read⟩ := bind_eq_ok.mp read
      obtain ⟨rest, restRead, read⟩ := bind_eq_ok.mp read
      obtain rfl := Except.ok.inj read
      exact ⟨nameExpression, value, position, name, bound, rest, rfl, rfl,
        readSymbol_eq_ok.mp named, by simpa using fresh, boundRead, restRead⟩
  | .atom _ _ | .list [] _ | .list [_] _ | .list (_ :: _ :: _ :: _) _ =>
    cases read

end ModelAudit
