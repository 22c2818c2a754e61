import ModelAudit.Proofs.DigitValues
import ModelAudit.Proofs.LexedAtoms
import ModelAudit.Proofs.SymbolGrowth
import ModelAudit.Proofs.TermSources

/-!
# Sorts of terms

The rules by which a term has a sort over a symbol table and the binders around
it. They do not refer to the sorts that terms carry. Reading a term establishes
that it has the sort it carries.
-/

namespace ModelAudit

def SymbolTable.HasSignature (symbols : SymbolTable) (name : Text)
    (arguments : List SmtSort) (result : SmtSort) : Prop :=
  ∃ declaration, symbols.lookup? name = some declaration ∧
    declaration.arguments = arguments ∧ declaration.result = result

theorem SymbolTable.HasSignature.grow {symbols later : SymbolTable}
    {name : Text} {arguments : List SmtSort} {result : SmtSort}
    (signature : symbols.HasSignature name arguments result)
    (grown : symbols.Grows later) :
    later.HasSignature name arguments result := by
  obtain ⟨declaration, found, rfl, rfl⟩ := signature
  obtain ⟨other, otherFound, sameArguments, sameResult⟩ := grown.signature found
  exact ⟨other, otherFound, sameArguments, sameResult⟩

theorem SymbolTable.HasSignature.unique {symbols : SymbolTable} {name : Text}
    {arguments otherArguments : List SmtSort} {result otherResult : SmtSort}
    (signature : symbols.HasSignature name arguments result)
    (other : symbols.HasSignature name otherArguments otherResult) :
    arguments = otherArguments ∧ result = otherResult := by
  obtain ⟨declaration, found, rfl, rfl⟩ := signature
  obtain ⟨another, otherFound, rfl, rfl⟩ := other
  obtain rfl := Option.some.inj (found.symm.trans otherFound)
  exact ⟨rfl, rfl⟩

/-- The sorts of the names in scope are ground. -/
def Scope.Ground (names : List Text) (scope : Scope) : Prop :=
  ∀ name sort, scope.find? name = some sort → sort.Ground names

theorem Scope.Ground.enter {names : List Text} {scope : Scope}
    (ground : scope.Ground names) {binders : Binders}
    (bindersGround : ∀ binder ∈ binders, binder.snd.Ground names) :
    (scope.enter binders).Ground names := by
  intro name sort found
  rw [Scope.enter, Table.find?_append, Option.or_eq_some_iff] at found
  rcases found with inside | ⟨_, outside⟩
  · exact bindersGround _
      (List.mem_reverse.mp (Table.mem_of_find?_eq_some inside))
  · exact ground name sort outside

/-- Bit-vectors have a positive width and a value that fits it. -/
def Literal.InRange : Literal → Prop
  | .bitVector value width => 0 < width ∧ value < 2 ^ width
  | _ => True

/-- Literals as texts write them: in range, and decimals with digits and
points. -/
def Literal.Written : Literal → Prop
  | .decimal written =>
    written ≠ [] ∧ ∀ point ∈ written, point.isDigit = true ∨ point = '.'
  | value => value.InRange

theorem Literal.Written.inRange {value : Literal} (written : value.Written) :
    value.InRange := by
  cases value with
  | decimal _ => trivial
  | bool _ | integer _ | bitVector _ _ | string _ => exact written

theorem Literal.InRange.written {value : Literal} (inRange : value.InRange)
    (notReal : value.sort ≠ .real) : value.Written := by
  cases value with
  | decimal _ => exact absurd rfl notReal
  | bool _ | integer _ | bitVector _ _ | string _ => exact inRange

/-- The term has the sort under binders with the sorts of the scope, the
innermost first, if its literals are among those admitted. -/
inductive Term.HasSort (symbols : SymbolTable) (admitted : Literal → Prop) :
    Scope → Term → SmtSort → Prop
  | literal {scope : Scope} {value : Literal} :
      admitted value →
      HasSort symbols admitted scope (.literal value) value.sort
  | bound {scope : Scope} {name : Text} {sort : SmtSort} :
      scope.find? name = some sort →
      HasSort symbols admitted scope (.symbol name sort) sort
  | constant {scope : Scope} {name : Text} {sort : SmtSort} :
      scope.find? name = none → symbols.HasSignature name [] sort →
      HasSort symbols admitted scope (.symbol name sort) sort
  | functionArray {scope : Scope} {function : Text} {index element : SmtSort} :
      symbols.HasSignature function [index] element →
      HasSort symbols admitted scope (.functionArray function index element)
        (.array index element)
  | call {scope : Scope} {name : Text} {indices : List Nat}
      {arguments : List Term} {sorts : List SmtSort} {result : SmtSort} :
      scope.find? name = none → symbols.HasSignature name sorts result →
      arguments.length = sorts.length →
      (∀ typed ∈ arguments.zip sorts,
        HasSort symbols admitted scope typed.fst typed.snd) →
      HasSort symbols admitted scope
        (.application (.function name) indices arguments result)
        result
  | operation {scope : Scope} {operator : Operator} {rule : SignatureRule}
      {indices : List Nat} {arguments : List Term} {sorts : List SmtSort}
      {result : SmtSort} :
      operator.rule? = some rule →
      rule.resultSort operator sorts (indices.map Int.ofNat) = .ok result →
      arguments.length = sorts.length →
      (∀ typed ∈ arguments.zip sorts,
        HasSort symbols admitted scope typed.fst typed.snd) →
      HasSort symbols admitted scope
        (.application (.operator operator) indices arguments result)
        result
  | constantArray {scope : Scope} {value : Term} {index element : SmtSort} :
      (SmtSort.array index element).Ground symbols.userSorts →
      HasSort symbols admitted scope value element →
      HasSort symbols admitted scope
        (.application (.operator .constantArray) [] [value]
          (.array index element))
        (.array index element)
  | letIn {scope : Scope} {bindings : List (Text × Term)} {sorts : List SmtSort}
      {body : Term} {sort : SmtSort} :
      bindings ≠ [] → (bindings.map Prod.snd).length = sorts.length →
      (∀ typed ∈ (bindings.map Prod.snd).zip sorts,
        HasSort symbols admitted scope typed.fst typed.snd) →
      HasSort symbols admitted (scope.enter ((bindings.map Prod.fst).zip sorts))
        body sort →
      HasSort symbols admitted scope (.letIn bindings body) sort
  | quantified {scope : Scope} {quantifier : Quantifier} {binders : Binders}
      {body : Term} :
      binders ≠ [] → (∀ binder ∈ binders, binder.snd.Ground symbols.userSorts) →
      HasSort symbols admitted (scope.enter binders) body .bool →
      HasSort symbols admitted scope (.quantified quantifier binders body) .bool
  | annotated {scope : Scope} {inner : Term} {attributes : List (Text × Text)}
      {sort : SmtSort} :
      HasSort symbols admitted scope inner sort →
      HasSort symbols admitted scope (.annotated inner attributes) sort

namespace Term

/-- Terms next to the sorts that they carry. -/
theorem forall_zip_sorts (holds : Term → SmtSort → Prop) {terms : List Term} :
    (∀ typed ∈ terms.zip (terms.map sort), holds typed.fst typed.snd) ↔
      ∀ term ∈ terms, holds term term.sort := by
  induction terms with
  | nil => simp
  | cons first others inductionHypothesis =>
      rw [List.map_cons, List.zip_cons_cons, List.forall_mem_cons,
        List.forall_mem_cons, inductionHypothesis]

theorem eq_sorts_of_zip {terms : List Term} {sorts : List SmtSort}
    (lengths : terms.length = sorts.length)
    (each : ∀ typed ∈ terms.zip sorts, typed.fst.sort = typed.snd) :
    sorts = terms.map sort := by
  induction terms generalizing sorts with
  | nil => exact List.length_eq_zero_iff.mp lengths.symm
  | cons first others inductionHypothesis =>
      cases sorts with
      | nil => cases lengths
      | cons sort sorts =>
          obtain ⟨here, later⟩ := List.forall_mem_cons.mp each
          have same : first.sort = sort := here
          rw [List.map_cons, same,
            ← inductionHypothesis (Nat.succ.inj lengths) later]

namespace HasSort

variable {symbols : SymbolTable} {admitted : Literal → Prop} {scope : Scope}
  {term : Term} {sort : SmtSort}

/-- A term has no other sort than the one it carries. -/
theorem sort_eq (typed : HasSort symbols admitted scope term sort) :
    term.sort = sort := by
  induction typed with
  | literal _ | bound _ | constant _ _ | functionArray _ | call _ _ _ _ _
  | operation _ _ _ _ _ | constantArray _ _ _ | quantified _ _ _ _ => rfl
  | letIn _ _ _ _ _ bodyHypothesis => exact bodyHypothesis
  | annotated _ innerHypothesis => exact innerHypothesis

theorem sorts_eq {terms : List Term} {sorts : List SmtSort}
    (lengths : terms.length = sorts.length)
    (each : ∀ typed ∈ terms.zip sorts,
      HasSort symbols admitted scope typed.fst typed.snd) :
    sorts = terms.map Term.sort :=
  eq_sorts_of_zip lengths fun typed member => (each typed member).sort_eq

/-- Each of several terms that fit sorts has the sort that it carries. -/
theorem each {terms : List Term} {sorts : List SmtSort}
    (lengths : terms.length = sorts.length)
    (zipped : ∀ typed ∈ terms.zip sorts,
      HasSort symbols admitted scope typed.fst typed.snd) :
    ∀ term ∈ terms, term.HasSort symbols admitted scope term.sort := by
  obtain rfl := sorts_eq lengths zipped
  exact (forall_zip_sorts fun term sort =>
    term.HasSort symbols admitted scope sort).mp zipped

theorem argument {head : Head} {indices : List Nat} {arguments : List Term}
    {result : SmtSort} {argument : Term}
    (typed : HasSort symbols admitted scope
      (.application head indices arguments result) sort)
    (member : argument ∈ arguments) :
    argument.HasSort symbols admitted scope argument.sort := by
  cases typed with
  | call _ _ lengths typedArguments | operation _ _ lengths typedArguments =>
      exact each lengths typedArguments argument member
  | constantArray _ typedValue =>
      obtain rfl := List.mem_singleton.mp member
      exact typedValue.sort_eq ▸ typedValue

theorem boundTerm {bindings : List (Text × Term)} {body : Term}
    {binding : Text × Term}
    (typed : HasSort symbols admitted scope (.letIn bindings body) sort)
    (member : binding ∈ bindings) :
    binding.snd.HasSort symbols admitted scope binding.snd.sort := by
  cases typed with
  | letIn _ lengths typedBounds _ =>
      exact each lengths typedBounds _ (List.mem_map_of_mem member)

/-- Fewer literals may be admitted. -/
theorem weaken {other : Literal → Prop}
    (typed : HasSort symbols admitted scope term sort)
    (weaker : ∀ value, admitted value → other value) :
    HasSort symbols other scope term sort := by
  induction typed with
  | literal isAdmitted => exact .literal (weaker _ isAdmitted)
  | bound found => exact .bound found
  | constant unbound signature => exact .constant unbound signature
  | functionArray signature => exact .functionArray signature
  | call unbound signature lengths _ argumentsHypothesis =>
      exact .call unbound signature lengths argumentsHypothesis
  | operation rule result lengths _ argumentsHypothesis =>
      exact .operation rule result lengths argumentsHypothesis
  | constantArray ground _ valueHypothesis =>
    exact .constantArray ground valueHypothesis
  | letIn nonempty lengths _ _ boundHypothesis bodyHypothesis =>
      exact .letIn nonempty lengths boundHypothesis bodyHypothesis
  | quantified nonempty ground _ bodyHypothesis =>
    exact .quantified nonempty ground bodyHypothesis
  | annotated _ innerHypothesis => exact .annotated innerHypothesis

/-- Later tables give the same sorts. -/
theorem grow {later : SymbolTable}
    (typed : HasSort symbols admitted scope term sort)
    (grown : symbols.Grows later) : HasSort later admitted scope term sort := by
  induction typed with
  | literal isAdmitted => exact .literal isAdmitted
  | bound found => exact .bound found
  | constant unbound signature => exact .constant unbound (signature.grow grown)
  | functionArray signature => exact .functionArray (signature.grow grown)
  | call unbound signature lengths _ argumentsHypothesis =>
      exact .call unbound (signature.grow grown) lengths argumentsHypothesis
  | operation rule result lengths _ argumentsHypothesis =>
      exact .operation rule result lengths argumentsHypothesis
  | constantArray ground _ valueHypothesis =>
      exact .constantArray (ground.mono grown.userSorts_subset) valueHypothesis
  | letIn nonempty lengths _ _ boundHypothesis bodyHypothesis =>
      exact .letIn nonempty lengths boundHypothesis bodyHypothesis
  | quantified nonempty ground _ bodyHypothesis =>
      exact .quantified nonempty
        (fun binder member =>
          (ground binder member).mono grown.userSorts_subset) bodyHypothesis
  | annotated _ innerHypothesis => exact .annotated innerHypothesis

end HasSort

end Term

/-! ## Literals -/

theorem Lexer.hexValue?_lt_of_isBit {point : CodePoint}
    (bit : isBit point = true) :
    point.hexValue?.getD 0 < 2 := by
  simp only [isBit, Bool.or_eq_true, decide_eq_true_eq] at bit
  rcases bit with rfl | rfl <;> decide

/-- Whatever literal the atom denotes is admitted. -/
def Atom.Admitted (admitted : Literal → Prop) (leaf : Atom) : Prop :=
  ∀ symbols scope position value,
    readAtom symbols scope leaf position = .ok (.literal value) → admitted value

theorem bool_of_readReference {symbols : SymbolTable} {scope : Scope}
    {name : Text} {expression : SExpr} {value : Literal}
    (read : readReference symbols scope name expression =
      .ok (.literal value)) :
    ∃ truth, value = .bool truth := by
  rw [readReference] at read
  split at read
  · cases read
  · split at read
    · cases read
      exact ⟨_, rfl⟩
    · split at read <;> split at read <;> cases read

/-- The literals of a text are in range, and its decimals are written with
digits. -/
theorem Atom.Spelled.admitted {leaf : Atom} (spelled : leaf.Spelled) :
    leaf.Admitted Literal.Written := by
  intro symbols scope position value read
  cases leaf with
  | symbol name quoted =>
      obtain ⟨truth, rfl⟩ := bool_of_readReference read
      trivial
  | hexadecimal digits =>
      obtain ⟨nonempty, _⟩ := spelled
      cases read
      have bound :=
        Text.baseValue_lt fun digit (_ : digit ∈ digits) => digit.hexValue?_lt
      have length := List.length_pos_iff.mpr nonempty
      refine ⟨by omega, ?_⟩
      rwa [Nat.pow_mul]
  | binary digits =>
      obtain ⟨nonempty, bits⟩ := spelled
      cases read
      have bound := Text.baseValue_lt fun digit member =>
        Lexer.hexValue?_lt_of_isBit (bits digit member)
      exact ⟨List.length_pos_iff.mpr nonempty, bound⟩
  | keyword written => cases read
  | decimal written =>
      cases read
      exact spelled
  | numeral digits | string contents =>
      cases read
      trivial

/-! ## Reading -/

section Reading

variable {symbols : SymbolTable} {admitted : Literal → Prop} {scope : Scope}
  {name : Text} {expression : SExpr} {term : Term}

private theorem hasSort_of_readFunctionArray {function : SExpr}
    (read : readFunctionArray symbols function = .ok term) :
    term.HasSort symbols admitted scope term.sort := by
  rw [readFunctionArray] at read
  obtain ⟨name, _, read⟩ := Outcome.bind_eq_ok.mp read
  split at read
  · cases read
  · next declaration found =>
    split at read
    · next index arguments =>
      obtain rfl := Except.ok.inj read
      exact .functionArray ⟨declaration, found, arguments, rfl⟩
    · cases read

theorem SmtSort.Ground.eq_array {names : List Text}
    {sort index element : SmtSort} (ground : sort.Ground names)
    (parts : sort.arrayParts? = some (index, element)) :
    sort = .array index element := by
  cases ground with
  | basic _ | bitVec _ | named _ => cases parts
  | array _ _ =>
      obtain ⟨rfl, rfl⟩ := Prod.mk.inj (Option.some.inj parts)
      rfl

private theorem hasSort_of_resolves {indices : List Nat} {arguments : List Term}
    {head : Head} {sort : SmtSort} (unbound : scope.find? name = none)
    (typed : ∀ argument ∈ arguments,
      argument.HasSort symbols admitted scope argument.sort)
    (resolves : Resolves symbols name indices
      (arguments.map Term.sort) head sort) :
    (Term.application head indices arguments sort).HasSort symbols admitted
      scope sort := by
  have lengths : arguments.length = (arguments.map Term.sort).length := by simp
  have typed := (Term.forall_zip_sorts _).mpr typed
  cases resolves with
  | @function declaration found same =>
      exact .call unbound ⟨declaration, found, same.symm, rfl⟩ lengths typed
  | operator _ _ ruled fits => exact .operation ruled fits lengths typed

/-- An accepted application has the sort that is computed for it. -/
private theorem hasSort_of_applyName {indices : List Nat}
    {stated : Option SmtSort} {arguments : List Term} {headPlace : Place}
    (groundStated : ∀ sort, stated = some sort → sort.Ground symbols.userSorts)
    (typed : ∀ argument ∈ arguments,
      argument.HasSort symbols admitted scope argument.sort)
    (applied : applyName symbols scope name indices stated arguments expression
        headPlace =
      .ok term) :
    term.HasSort symbols admitted scope term.sort := by
  obtain ⟨unbound, ⟨index, value, sort, _, isStated, rfl, parts, rfl⟩ |
    ⟨head, sort, resolves, _, rfl⟩⟩ := applyName_eq_ok applied
  · have ground := groundStated sort isStated
    obtain rfl := ground.eq_array parts
    exact .constantArray ground (typed value (List.mem_singleton_self value))
  · exact hasSort_of_resolves unbound typed resolves

private theorem hasSort_of_applyList {items : List SExpr} {head : SExpr}
    {arguments : List Term} (aliases : symbols.GroundAliases)
    (typed : ∀ argument ∈ arguments,
      argument.HasSort symbols admitted scope argument.sort)
    (applied : applyList symbols scope items head arguments expression =
      .ok term) :
    term.HasSort symbols admitted scope term.sort := by
  obtain ⟨name, indices, stated, gives, applied⟩ := exists_givesName applied
  refine hasSort_of_applyName (fun sort isStated => ?_) typed applied
  cases gives with
  | indexed _ _ => cases isStated
  | qualified _ statedRead | qualifiedIndexed _ _ statedRead _ =>
      exact Option.some.inj isStated ▸ readSort_closed aliases statedRead

private theorem readBindings_ne_nil {seen : List Text} {first : SExpr}
    {others : List SExpr} {bindings : List (Text × Term)}
    (read : readBindings symbols scope seen (first :: others) = .ok bindings) :
    bindings ≠ [] := by
  obtain ⟨_, _, _, _, _, _, _, rfl, _⟩ := exists_bindingParts read
  exact List.cons_ne_nil _ _

private theorem hasSort_letIn {bindings : List (Text × Term)} {body : Term}
    (nonempty : bindings ≠ [])
    (bound : ∀ binding ∈ bindings,
      binding.snd.HasSort symbols admitted scope binding.snd.sort)
    (inner : body.HasSort symbols admitted
      (scope.enter
        (bindings.map fun binding => (binding.fst, binding.snd.sort)))
          body.sort) :
    (Term.letIn bindings body).HasSort symbols admitted scope body.sort := by
  have binders : (bindings.map fun binding => (binding.fst, binding.snd.sort)) =
      (bindings.map Prod.fst).zip ((bindings.map Prod.snd).map Term.sort) := by
    rw [List.map_map, List.zip_map']
    rfl
  have lengths : (bindings.map Prod.snd).length =
      ((bindings.map Prod.snd).map Term.sort).length := by simp
  refine .letIn nonempty lengths ((Term.forall_zip_sorts _).mpr ?_)
    (binders ▸ inner)
  exact List.forall_mem_map.mpr bound

section Sound

variable (sound : ∀ value : Literal, value.InRange → value.sort ≠ .real →
  admitted value)

include sound

/-- A name that is read alone has the sort of its binder or declaration. -/
private theorem hasSort_of_readReference
    (read : readReference symbols scope name expression = .ok term) :
    term.HasSort symbols admitted scope term.sort := by
  rw [readReference] at read
  split at read
  · next bound =>
    obtain rfl := Except.ok.inj read
    exact .bound bound
  · next unbound =>
    split at read
    · obtain rfl := Except.ok.inj read
      exact .literal (sound _ trivial (by decide : SmtSort.bool ≠ .real))
    · split at read
      · next declaration found =>
        split at read
        · next constant =>
          obtain rfl := Except.ok.inj read
          exact .constant unbound ⟨declaration, found,
            List.isEmpty_iff.mp constant, rfl⟩
        · cases read
      · split at read <;> cases read

private theorem hasSort_of_readAtom {leaf : Atom}
    (fits : leaf.Admitted admitted) {position : Position}
    (read : readAtom symbols scope leaf position = .ok term) :
    term.HasSort symbols admitted scope term.sort := by
  cases leaf with
  | symbol written quoted => exact hasSort_of_readReference sound read
  | keyword written => cases read
  | numeral digits | decimal written | hexadecimal digits | binary digits
  | string contents =>
      obtain rfl := Except.ok.inj read
      exact .literal (fits symbols scope position _ rfl)

private theorem hasSort_of_readBitVector {digits : Text} {width : SExpr}
    (read : readBitVector digits width = .ok term) :
    term.HasSort symbols admitted scope term.sort := by
  rw [readBitVector] at read
  obtain ⟨bits, _, read⟩ := Outcome.bind_eq_ok.mp read
  split at read
  · cases read
  · next positive =>
    split at read
    · next value _ =>
      obtain rfl := Except.ok.inj read
      have fits : value % powerOfTwo bits < 2 ^ bits :=
        Nat.mod_lt _ (Nat.two_pow_pos bits)
      refine .literal (sound _ ⟨Nat.pos_of_ne_zero positive, fits⟩ ?_)
      simp [Literal.sort, SmtSort.bitVec, SmtSort.real, SmtSort.simple]
    · cases read

/-- Indexed constants have the sort that their index says. -/
private theorem hasSort_of_readIndexedConstant {items : List SExpr}
    (read : readIndexedConstant symbols items expression = .ok term) :
    term.HasSort symbols admitted scope term.sort := by
  have rejected {cause : Text × List Nat → MismatchCause}
      (read : (do
        let named ← readIndexedName items expression
        mismatch (cause named) expression) = Except.ok term) :
      term.HasSort symbols admitted scope term.sort := by
    obtain ⟨_, _, read⟩ := Outcome.bind_eq_ok.mp read
    cases read
  unfold readIndexedConstant at read
  dsimp only at read
  split at read
  · split at read
    · exact rejected read
    · split at read
      · exact hasSort_of_readBitVector sound read
      · split at read
        · exact hasSort_of_readFunctionArray read
        · exact rejected read
  · exact rejected read

private theorem hasSort_of_readQualified {items : List SExpr}
    (read : readQualified symbols scope items expression = .ok term) :
    term.HasSort symbols admitted scope term.sort := by
  unfold readQualified at read
  split at read
  · split at read
    · cases read
    · obtain ⟨stated, _, read⟩ := Outcome.bind_eq_ok.mp read
      obtain ⟨inner, innerRead, read⟩ := Outcome.bind_eq_ok.mp read
      split at read
      · obtain rfl := Except.ok.inj read
        exact hasSort_of_readReference sound innerRead
      · cases read
  · cases read

end Sound

mutual

/-- Every term that is read has the sort it carries. -/
theorem readTerm_hasSort
    (sound : ∀ value : Literal, value.InRange → value.sort ≠ .real →
      admitted value)
    (aliases : symbols.GroundAliases) :
    (expression : SExpr) → expression.Everywhere (Atom.Admitted admitted) →
    (scope : Scope) → (term : Term) →
    readTerm symbols scope expression = .ok term →
    term.HasSort symbols admitted scope term.sort
  | .atom leaf position, atoms, scope, term, read => by
      rw [readTerm] at read
      exact hasSort_of_readAtom sound atoms.leaf read
  | .list [] position, atoms, scope, term, read => by cases read
  | .list (.list headItems headPosition :: rest) position, atoms, scope, term,
      read => by
      rw [readTerm] at read
      split at read
      · cases read
      · obtain ⟨arguments, argumentsRead, read⟩ := Outcome.bind_eq_ok.mp read
        have inside := (List.forall_mem_cons.mp atoms.items).2
        exact hasSort_of_applyList aliases
          (readTerms_hasSort sound aliases rest inside scope arguments
            argumentsRead) read
  | .list (.atom leaf headPosition :: rest) position, atoms, scope, term,
      read => by
      have inside := (List.forall_mem_cons.mp atoms.items).2
      cases leaf with
      | symbol name quoted =>
          rw [readTerm.eq_def] at read
          dsimp only at read
          split at read
          · split at read
            · next first others listPosition body =>
              obtain ⟨bindings, bindingsRead, read⟩ :=
                Outcome.bind_eq_ok.mp read
              obtain ⟨inner, innerRead, read⟩ := Outcome.bind_eq_ok.mp read
              obtain rfl := Except.ok.inj read
              have listAtoms :=
                inside (.list (first :: others) listPosition) (by simp)
              have bodyAtoms := inside body (by simp)
              exact hasSort_letIn (readBindings_ne_nil bindingsRead)
                (readBindings_hasSort sound aliases _ listAtoms.items scope
                  [] bindings bindingsRead)
                (readTerm_hasSort sound aliases body bodyAtoms _ inner
                  innerRead)
            · cases read
          split at read
          · split at read
            · next first others listPosition body =>
              obtain ⟨binders, bindersRead, read⟩ := Outcome.bind_eq_ok.mp read
              obtain ⟨inner, innerRead, read⟩ := Outcome.bind_eq_ok.mp read
              split at read
              · next boolean =>
                obtain rfl := Except.ok.inj read
                have nonempty : binders ≠ [] := by
                  rintro rfl
                  cases Outcome.mapM_eq_ok.mp bindersRead
                have bodyAtoms := inside body (by simp)
                have typed :=
                  readTerm_hasSort sound aliases body bodyAtoms _ inner
                    innerRead
                exact .quantified nonempty
                  (readSortedNames_ground aliases bindersRead) (boolean ▸ typed)
              · cases read
            · cases read
          split at read
          · split at read
            · next innerExpression first others =>
              obtain ⟨inner, innerRead, read⟩ := Outcome.bind_eq_ok.mp read
              obtain ⟨attributes, _, read⟩ := Outcome.bind_eq_ok.mp read
              obtain rfl := Except.ok.inj read
              have innerAtoms := inside innerExpression (by simp)
              exact .annotated
                (readTerm_hasSort sound aliases innerExpression innerAtoms scope
                  inner innerRead)
            · cases read
          split at read
          · exact hasSort_of_readIndexedConstant sound read
          split at read
          · exact hasSort_of_readQualified sound read
          split at read
          · cases read
          · obtain ⟨arguments, argumentsRead, read⟩ :=
              Outcome.bind_eq_ok.mp read
            exact hasSort_of_applyName (by simp)
              (readTerms_hasSort sound aliases rest inside scope arguments
                argumentsRead) read
      | _ => cases read

theorem readTerms_hasSort
    (sound : ∀ value : Literal, value.InRange → value.sort ≠ .real →
      admitted value)
    (aliases : symbols.GroundAliases) :
    (expressions : List SExpr) →
    (∀ expression ∈ expressions,
      expression.Everywhere (Atom.Admitted admitted)) →
    (scope : Scope) → (terms : List Term) →
    readTerms symbols scope expressions = .ok terms →
    ∀ term ∈ terms, term.HasSort symbols admitted scope term.sort
  | [], atoms, scope, terms, read => by
      obtain rfl := Except.ok.inj read
      simp
  | expression :: expressions, atoms, scope, terms, read => by
      rw [readTerms] at read
      obtain ⟨first, firstRead, read⟩ := Outcome.bind_eq_ok.mp read
      obtain ⟨others, othersRead, read⟩ := Outcome.bind_eq_ok.mp read
      obtain rfl := Except.ok.inj read
      obtain ⟨here, later⟩ := List.forall_mem_cons.mp atoms
      exact List.forall_mem_cons.mpr
        ⟨readTerm_hasSort sound aliases expression here scope first firstRead,
          readTerms_hasSort sound aliases expressions later scope others
            othersRead⟩

theorem readBindings_hasSort
    (sound : ∀ value : Literal, value.InRange → value.sort ≠ .real →
      admitted value)
    (aliases : symbols.GroundAliases) :
    (expressions : List SExpr) →
    (∀ expression ∈ expressions,
      expression.Everywhere (Atom.Admitted admitted)) →
    (scope : Scope) → (seen : List Text) → (bindings : List (Text × Term)) →
    readBindings symbols scope seen expressions = .ok bindings →
    ∀ binding ∈ bindings,
      binding.snd.HasSort symbols admitted scope binding.snd.sort
  | [], atoms, scope, seen, bindings, read => by
      obtain rfl := Except.ok.inj read
      simp
  | .list [nameExpression, value] position :: others, atoms, scope, seen,
      bindings, read => by
      obtain ⟨_, _, _, name, bound, rest, same, rfl, parts⟩ :=
        exists_bindingParts read
      cases same
      obtain ⟨here, later⟩ := List.forall_mem_cons.mp atoms
      have valueAtoms := here.items value (by simp)
      exact List.forall_mem_cons.mpr
        ⟨readTerm_hasSort sound aliases value valueAtoms scope bound
          parts.value,
          readBindings_hasSort sound aliases others later scope
            (name :: seen) rest parts.others⟩
  | .atom _ _ :: _, _, scope, seen, bindings, read => by cases read
  | .list [] _ :: _, _, scope, seen, bindings, read => by cases read
  | .list [_] _ :: _, _, scope, seen, bindings, read => by cases read
  | .list (_ :: _ :: _ :: _) _ :: _, _, scope, seen, bindings, read => by
    cases read

end

/-- Every term that is read from a text has the sort it carries. -/
theorem hasSort_of_readTerm (aliases : symbols.GroundAliases)
    (spelled : expression.Everywhere Atom.Spelled)
    (read : readTerm symbols scope expression = .ok term) :
    term.HasSort symbols Literal.Written scope term.sort :=
  readTerm_hasSort (fun _ => Literal.InRange.written) aliases expression
    (spelled.weaken fun _ => Atom.Spelled.admitted) scope term read

end Reading

end ModelAudit
