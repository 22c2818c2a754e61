import ModelAudit.Proofs.LargerTables

/-!
# Headers over unknown sorts

A sort that is read over a table is read over a table without sorts as well,
unless it mentions a sort that only the first table knows. Whether it does can
be told from the sort itself: it is then not ground over the built-in sorts
alone. The header of a function is read in the same way.
-/

namespace ModelAudit

open Outcome

/-- The computation returns the value if the condition holds, and otherwise
misses a sort. -/
def ReturnsIf {Value : Type} (condition : Prop) (computed : Except Fault Value)
    (value : Value) : Prop :=
  (condition → computed = .ok value) ∧
    (¬condition → ∃ name place, computed = .error (.undeclaredSort name place))

section ReturnsIf

variable {Value Image : Type} {condition other : Prop}
  {computed : Except Fault Value} {value : Value}

theorem returnsIf_of_eq_ok (holds : condition)
    (returned : computed = .ok value) :
    ReturnsIf condition computed value :=
  ⟨fun _ => returned, fun fails => absurd holds fails⟩

/-- Computations in a row return if the conditions of both hold. -/
theorem ReturnsIf.bind {next : Value → Except Fault Image} {image : Image}
    (first : ReturnsIf condition computed value)
    (second : ReturnsIf other (next value) image) :
    ReturnsIf (condition ∧ other) (computed >>= next) image := by
  refine ⟨fun ⟨holds, holdsToo⟩ => ?_, fun fails => ?_⟩
  · rw [first.1 holds, ok_bind, second.1 holdsToo]
  · by_cases holds : condition
    · obtain ⟨name, place, missed⟩ :=
        second.2 fun holdsToo => fails ⟨holds, holdsToo⟩
      exact ⟨name, place, by rw [first.1 holds, ok_bind, missed]⟩
    · obtain ⟨name, place, missed⟩ := first.2 holds
      exact ⟨name, place, by rw [missed, error_bind]⟩

theorem ReturnsIf.map {next : Value → Except Fault Image} {image : Image}
    (first : ReturnsIf condition computed value)
    (last : next value = .ok image) :
    ReturnsIf condition (computed >>= next) image := by
  have bound := first.bind (returnsIf_of_eq_ok trivial last)
  rwa [and_true] at bound

theorem returnsIf_mapM {image : Value → Except Fault Image}
    {holds : Image → Prop} {values : List Value} {images : List Image}
    (each : List.Forall₂
      (fun value result => ReturnsIf (holds result) (image value) result)
      values images) :
    ReturnsIf (∀ result ∈ images, holds result) (values.mapM image) images := by
  induction each with
  | nil =>
    exact returnsIf_of_eq_ok
      (fun _ member => absurd member List.not_mem_nil) rfl
  | cons first _ inductionHypothesis =>
      rw [List.mapM_cons, List.forall_mem_cons]
      exact first.bind (inductionHypothesis.map rfl)

end ReturnsIf

namespace SmtSort

variable {names : List Text}

/-- A simple sort is ground exactly if it is built in or among the names. -/
theorem ground_simple_iff {name : Text} :
    (simple name).Ground names ↔ name ∈ basicNames ∨ name ∈ names := by
  constructor
  · intro ground
    cases ground with
    | basic member => exact .inl member
    | named member => exact .inr member
  · rintro (basic | named)
    · exact .basic basic
    · exact .named named

theorem ground_builtin?_iff {name : Text} {arguments : List SmtSort}
    {indices : List Int} {sort : SmtSort}
    (known : builtin? name arguments indices = some sort) :
    sort.Ground names ↔ ∀ argument ∈ arguments, argument.Ground names := by
  refine ⟨fun ground => ?_, ground_of_builtin? known⟩
  match arguments, indices with
  | [], _ => exact fun _ member => absurd member List.not_mem_nil
  | [index, element], [] =>
      simp only [builtin?, Option.ite_none_right_eq_some, Option.some.injEq]
        at known
      obtain ⟨_, rfl⟩ := known
      cases ground with
      | array indexGround elementGround => simp [indexGround, elementGround]
  | [_], _ | _ :: _ :: _ :: _, _ | [_, _], _ :: _ => cases known

end SmtSort

/-- The table knows no sorts but the built-in ones. -/
structure SymbolTable.Unsorted (symbols : SymbolTable) : Prop where
  sorts : symbols.sorts = []
  aliases : symbols.aliases = []

theorem SymbolTable.Unsorted.ground {bare : SymbolTable}
    (unsorted : bare.Unsorted) {expression : SExpr} {sort : SmtSort}
    (read : readSort bare [] expression = .ok sort) :
    sort.Ground [] := by
  have aliases : bare.GroundAliases := by
    intro name sortAlias found
    rw [unsorted.aliases] at found
    cases found
  have ground := readSort_closed aliases read
  rwa [SymbolTable.userSorts, unsorted.sorts] at ground

/-! ## Sorts -/

section Unsorted

variable {symbols bare : SymbolTable} (unsorted : bare.Unsorted)
  (noAliases : symbols.aliases = [])
include unsorted noAliases

/-- A table without declared sorts knows the built-in ones only. -/
theorem sortOfName_unsorted {name : Text} {expression : SExpr} {sort : SmtSort}
    (read : sortOfName symbols [] name expression = .ok sort) :
    ReturnsIf (sort.Ground []) (sortOfName bare [] name expression) sort := by
  simp only [sortOfName, noAliases, unsorted.aliases, unsorted.sorts,
    List.contains_nil, Bool.false_eq_true, if_false, Table.find?] at read ⊢
  cases known : SmtSort.builtin? name [] [] with
  | some other =>
      rw [known] at read
      obtain rfl := Except.ok.inj read
      exact returnsIf_of_eq_ok (SmtSort.ground_of_builtin? known (by simp)) rfl
  | none =>
      rw [known] at read
      dsimp only at read ⊢
      split at read
      · obtain rfl := Except.ok.inj read
        refine ⟨fun ground => ?_, fun _ => ⟨name, _, rfl⟩⟩
        rcases SmtSort.ground_simple_iff.mp ground with basic | absurdity
        · simp [SmtSort.builtin?, basic] at known
        · cases absurdity
      · cases read

theorem appliedSort_unsorted {name : Text} {arguments : List SmtSort}
    {expression : SExpr} {sort : SmtSort}
    (read : appliedSort symbols name arguments expression = .ok sort) :
    appliedSort bare name arguments expression = .ok sort ∧
      (sort.Ground [] ↔ ∀ argument ∈ arguments, argument.Ground []) := by
  refine ⟨(appliedSort_congr (unsorted.aliases.trans noAliases.symm) _ _
    _).trans read, ?_⟩
  rw [appliedSort, noAliases, Table.find?] at read
  dsimp only at read
  split at read
  · next known =>
    obtain rfl := Except.ok.inj read
    exact SmtSort.ground_builtin?_iff known
  · cases read

end Unsorted

mutual

/-- A sort is read without the declared sorts unless it mentions one of them. -/
theorem readSort_unsorted {symbols bare : SymbolTable}
    (unsorted : bare.Unsorted) (noAliases : symbols.aliases = []) :
    (expression : SExpr) → (sort : SmtSort) →
    readSort symbols [] expression = .ok sort →
    ReturnsIf (sort.Ground []) (readSort bare [] expression) sort
  | .atom leaf position, sort, read => by
      cases leaf with
      | symbol name quoted =>
          rw [readSort] at read ⊢
          exact sortOfName_unsorted unsorted noAliases read
      | _ => cases read
  | .list [] position, sort, read => by cases read
  | .list (head :: items) position, sort, read => by
      rw [readSort] at read ⊢
      split at read
      · next indexed =>
        have here : readSort bare [] (.list (head :: items) position) =
            .ok sort := by
          rw [readSort, if_pos indexed, read]
        rw [if_pos indexed]
        exact returnsIf_of_eq_ok (unsorted.ground here) read
      · obtain ⟨name, named, read⟩ := bind_eq_ok.mp read
        obtain ⟨arguments, argumentsRead, read⟩ := bind_eq_ok.mp read
        obtain ⟨applied, ground⟩ := appliedSort_unsorted unsorted noAliases read
        rw [if_neg ‹_›, named, ok_bind, ground]
        exact (readSorts_unsorted unsorted noAliases items arguments
          argumentsRead).map applied

/-- Sorts are read without declared ones exactly if none is mentioned. -/
theorem readSorts_unsorted {symbols bare : SymbolTable}
    (unsorted : bare.Unsorted) (noAliases : symbols.aliases = []) :
    (expressions : List SExpr) → (sorts : List SmtSort) →
    readSorts symbols [] expressions = .ok sorts →
    ReturnsIf (∀ sort ∈ sorts, sort.Ground [])
      (readSorts bare [] expressions) sorts
  | [], sorts, read => by
      obtain rfl := Except.ok.inj read
      exact returnsIf_of_eq_ok
        (fun _ member => absurd member List.not_mem_nil) rfl
  | expression :: expressions, sorts, read => by
      rw [readSorts] at read ⊢
      obtain ⟨first, firstRead, read⟩ := bind_eq_ok.mp read
      obtain ⟨others, othersRead, read⟩ := bind_eq_ok.mp read
      obtain rfl := Except.ok.inj read
      rw [List.forall_mem_cons]
      exact (readSort_unsorted unsorted noAliases expression first
        firstRead).bind
        ((readSorts_unsorted unsorted noAliases expressions others
          othersRead).map rfl)

end

/-! ## Headers -/

section Headers

variable {symbols bare : SymbolTable} (unsorted : bare.Unsorted)
  (noAliases : symbols.aliases = [])
include unsorted noAliases

theorem readSortedName_unsorted {expression : SExpr} {binder : Text × SmtSort}
    (read : readSortedName symbols expression = .ok binder) :
    ReturnsIf (binder.snd.Ground [])
      (readSortedName bare expression) binder := by
  unfold readSortedName at read ⊢
  split at read
  · obtain ⟨name, named, read⟩ := bind_eq_ok.mp read
    obtain ⟨sort, sortRead, read⟩ := bind_eq_ok.mp read
    obtain rfl := Except.ok.inj read
    dsimp only
    rw [named, ok_bind]
    exact (readSort_unsorted unsorted noAliases _ sort sortRead).map rfl
  · cases read

theorem readSortedNames_unsorted {expressions : List SExpr} {binders : Binders}
    (read : expressions.mapM (readSortedName symbols) = .ok binders) :
    ReturnsIf (∀ binder ∈ binders, binder.snd.Ground [])
      (expressions.mapM (readSortedName bare)) binders :=
  returnsIf_mapM ((mapM_eq_ok.mp read).imp fun _ _ named =>
    readSortedName_unsorted unsorted noAliases named)

/-- The header of a function is read without the declared sorts unless it
mentions one of them. -/
theorem functionHeader_unsorted {command : Command}
    {header : Command.FunctionHeader}
    (read : command.functionHeader symbols = .ok header) :
    ReturnsIf (∀ sort ∈ header.result :: header.arguments, sort.Ground [])
      (command.functionHeader bare) header := by
  rw [Command.functionHeader] at read ⊢
  split at read
  · next items =>
    obtain ⟨listed, isList, read⟩ := bind_eq_ok.mp read
    obtain ⟨params, paramsRead, read⟩ := bind_eq_ok.mp read
    obtain ⟨result, resultRead, read⟩ := bind_eq_ok.mp read
    obtain rfl := Except.ok.inj read
    have conditions : (∀ sort ∈ result :: params.map Prod.snd, sort.Ground []) ↔
        (∀ param ∈ params, param.snd.Ground []) ∧ result.Ground [] := by
      rw [List.forall_mem_cons, List.forall_mem_map, and_comm]
    dsimp only [Command.FunctionHeader.arguments]
    rw [isList, ok_bind, conditions]
    exact (readSortedNames_unsorted unsorted noAliases paramsRead).bind
      ((readSort_unsorted unsorted noAliases _ result resultRead).map rfl)
  · cases read

end Headers

end ModelAudit
