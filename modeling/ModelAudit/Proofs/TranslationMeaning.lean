import ModelAudit.Proofs.LegibleTranslation
import ModelAudit.Proofs.TextMeaning

/-!
# The meaning of translated terms

Every term of Core and Ints that is read in some scope is translated, and the
text of its translation has its value under every reading of an interpretation.
Such a reading always exists.
-/

namespace ModelAudit

variable {Element : Type} {symbols : SymbolTable}

/-! ## Readings of types and identifiers -/

namespace Interpretation

/-- Types and identifiers mean what the sorts and symbols mean that they stand
for. -/
noncomputable def toHol (interpretation : Interpretation Element symbols) :
    HolInterpretation Element where
  domain type value :=
    ∃ sort, sort.Ground symbols.userSorts ∧
      sort.toHol symbols.userSorts = .ok type ∧
      interpretation.carrier sort value
  function identifier :=
    interpretation.function (Function.invFun Identifier.escape identifier)

/-- Every interpretation has a reading, since sorts differ in their types and
symbols in their identifiers. -/
theorem reads_toHol (interpretation : Interpretation Element symbols) :
    interpretation.toHol.Reads interpretation where
  domain sort type ground translated value := by
    constructor
    · rintro ⟨other, otherGround, otherTranslated, carried⟩
      rwa [ground.toHol_injective otherGround translated otherTranslated]
    · exact fun carried => ⟨sort, ground, translated, carried⟩
  function name _ := by
    have inverse :
        Function.invFun Identifier.escape (Identifier.escape name) = name :=
      Function.leftInverse_invFun Identifier.escape_injective name
    exact congrArg interpretation.function inverse

end Interpretation

/-! ## Terms that are read -/

/-- A well-sorted term applies declared functions only. -/
theorem Term.WellSorted.appliesDeclared (source : Term) :
    ∀ scope, source.WellSorted symbols scope →
      HolScope.AppliesDeclared symbols source := by
  induction source using Term.induction with
  | literal value =>
      intro scope _ name applied
      exact absurd applied List.not_mem_nil
  | symbol name sort =>
      intro scope _ name applied
      exact absurd applied List.not_mem_nil
  | functionArray function index element =>
      intro scope _ name applied
      simp [Term.heads] at applied
  | application head indices arguments sort argumentsHypothesis =>
      intro scope wellSorted name applied
      rcases List.mem_cons.mp applied with rfl | inside
      · obtain ⟨_, declaration, found, _, _⟩ := wellSorted.1
        exact List.mem_map_of_mem (Table.mem_of_find?_eq_some found)
      · obtain ⟨argument, member, inside⟩ := Term.mem_headsOfAll.mp inside
        exact argumentsHypothesis argument member scope
          (Term.wellSortedAll_iff.mp wellSorted.2 argument member) name inside
  | letIn bindings body bindingsHypothesis bodyHypothesis =>
      intro scope wellSorted name applied
      rcases List.mem_append.mp applied with inside | inside
      · obtain ⟨binding, member, inside⟩ := Term.mem_headsOfBindings.mp inside
        exact bindingsHypothesis binding member scope
          (Term.wellSortedBindings_iff.mp wellSorted.1 binding member)
          name inside
      · exact bodyHypothesis _ wellSorted.2.1 name inside
  | quantified quantifier binders body bodyHypothesis =>
      exact fun _ wellSorted => bodyHypothesis _ wellSorted.2.2.1
  | annotated inner attributes innerHypothesis => exact innerHypothesis

/-! ## Binders around a term -/

/-- The identifiers of all binders around stand for names. -/
theorem HolScope.Entered.named {scope : HolScope} {entries : List (Text × Text)}
    (entered : HolScope.Entered symbols scope entries)
    (values : List (CommonValue Element))
    (lengths : entries.length = values.length) :
    Named (Table.enter [] (entries.map Prod.snd) values) := by
  have standsFor :
      ∀ entry ∈ entries, Identifier.StandsFor entry.snd entry.fst := by
    clear lengths
    induction entered with
    | root => exact fun _ member => absurd member List.not_mem_nil
    | bind _ picks inductionHypothesis =>
        intro entry member
        rcases List.mem_append.mp member with outer | inner
        · exact inductionHypothesis entry outer
        · exact picks.standsFor entry inner
  intro identifier member
  rw [Table.names_enter (by simpa using lengths), List.mem_append,
    List.mem_reverse] at member
  rcases member with inside | outside
  · obtain ⟨entry, entryInside, rfl⟩ := List.mem_map.mp inside
    exact ⟨entry.fst, standsFor entry entryInside⟩
  · exact absurd outside List.not_mem_nil

theorem Interpretation.typed_nil
    (interpretation : Interpretation Element symbols) :
    interpretation.Typed [] [] :=
  fun _ => .none

namespace Translation

/-- Translation preserves meaning. Take a term of Core and Ints that is read
inside some binders, a later symbol table, and any interpretation of the latter.
The interpretation has a reading in HOL; the term is translated in every scope
that arises inside binders of these names; and for all values of the binders
that have their sorts, the term has a value of its sort, and the text of its
translation has the same value in every reading. -/
theorem translation_preserves_meaning {symbols final : SymbolTable}
    {binders : Binders} {expression : SExpr} {source : Term} {scope : HolScope}
    {entries : List (Text × Text)}
    (reached : SymbolTable.empty.Grows symbols) (grown : symbols.Grows final)
    (bindersGround : ∀ binder ∈ binders, binder.snd.Ground symbols.userSorts)
    (read : readTerm symbols (Scope.enter [] binders) expression = .ok source)
    (covered : source.inCoreInts = true)
    (entered : HolScope.Entered final scope entries)
    (names : entries.map Prod.fst = binders.map Prod.fst)
    (interpretation : Interpretation Element final) :
    (∃ reading : HolInterpretation Element, reading.Reads interpretation) ∧
      ∃ translated, term ⟨.default, final.userSorts⟩ scope source =
          .ok translated ∧
        ∀ values, interpretation.Carries (binders.map Prod.snd) values →
          ∃ value,
            source.value interpretation
              (Table.enter [] (binders.map Prod.fst) values) =
                some value ∧
              interpretation.carrier source.sort value ∧
              ∀ reading : HolInterpretation Element,
                reading.Reads interpretation →
                reading.textValue (Table.enter [] (entries.map Prod.snd) values)
                  translated.text = some value := by
  have wellFormed := reached.wellFormed SymbolTable.wellFormed_empty
  have wellSorted := Term.WellSorted.grow grown source (Scope.enter [] binders)
    (readTerm_wellSorted wellFormed.aliases expression _ source read)
  have ground :
      ∀ name sort, Table.find? (Scope.enter [] binders) name = some sort →
      sort.Ground final.userSorts := by
    intro name sort found
    have member : (name, sort) ∈ binders := by
      simpa [Scope.enter] using Table.mem_of_find?_eq_some found
    exact (bindersGround _ member).mono grown.userSorts_subset
  obtain ⟨_, translated, shape, valued⟩ :=
    preservesMeaning (grown.wellFormed wellFormed) interpretation source scope
      _ ground wellSorted covered
  have legible : translated.Legible :=
    translatesLegibly source scope _ translated entered.faithful wellSorted
      covered shape
  refine ⟨⟨interpretation.toHol, interpretation.reads_toHol⟩, translated,
    shape, ?_⟩
  intro values carried
  have lengths : entries.length = values.length := by
    have sorts := carried.length_eq
    have same := congrArg List.length names
    simp only [List.length_map] at sorts same
    rw [same, sorts]
  have aligned := entered.aligned
    (Term.WellSorted.appliesDeclared source (Scope.enter [] binders) wellSorted)
    values lengths
  rw [names] at aligned
  have named := entered.named values lengths
  have typed := interpretation.typed_nil.enter carried
  obtain ⟨value, sourceValue, valueCarried, _⟩ :=
    valued interpretation.toHol _ _ interpretation.reads_toHol aligned
      named typed
  refine ⟨value, sourceValue, valueCarried, ?_⟩
  intro reading reads
  obtain ⟨other, otherValue, _, translatedValue⟩ :=
    valued reading _ _ reads aligned named typed
  obtain rfl := Option.some.inj (sourceValue.symm.trans otherValue)
  exact legible.textValue_text.trans translatedValue

/-- An integer constant `x` and a function `f` of two integers. -/
def integerSymbols : SymbolTable :=
  (SymbolTable.empty.declare ⟨"x", [], .int, .declared⟩).declare
    ⟨"f", [.int, .int], .int, .declared⟩

theorem grows_integerSymbols : SymbolTable.empty.Grows integerSymbols := by
  have int {names : List Text} : SmtSort.int.Ground names :=
    .basic (by decide +kernel)
  refine .tail (.single (.declare _ (by decide +kernel) (by simp) int ?_))
    (.declare _ (by decide +kernel) (by simp [int]) int ?_)
  · exact fun _ found => by cases found
  · exact fun _ found => by cases found

/-- Truth values and integers are of the sorts `Bool` and `Int`; other sorts are
empty. -/
def BasicCarrier (sort : SmtSort) (value : CommonValue Empty) : Prop :=
  (sort = .bool ∧ ∃ holds, value = .truth holds) ∨
  (sort = .int ∧ ∃ number, value = .number number)

def difference (values : List (CommonValue Empty)) : CommonValue Empty :=
  match values with
  | [.number left, .number right] => .number (left - right)
  | _ => .number 0

theorem basicCarrier_bool (value : CommonValue Empty) :
    BasicCarrier .bool value ↔ ∃ holds, value = .truth holds := by
  have different : SmtSort.bool ≠ SmtSort.int := by decide +kernel
  simp [BasicCarrier, different]

theorem basicCarrier_int (value : CommonValue Empty) :
    BasicCarrier .int value ↔ ∃ number, value = .number number := by
  have different : SmtSort.int ≠ SmtSort.bool := by decide +kernel
  simp [BasicCarrier, different]

theorem basicCarrier_difference {name : Text} {arguments : List SmtSort}
    {result : SmtSort}
    (signature : integerSymbols.HasSignature name arguments result)
    (values : List (CommonValue Empty)) :
    BasicCarrier result (difference values) := by
  obtain ⟨declaration, found, _, rfl⟩ := signature
  have results :
      ∀ entry ∈ integerSymbols.declarations, entry.snd.result = .int := by
    decide +kernel
  rw [results _ (Table.mem_of_find?_eq_some found), basicCarrier_int]
  unfold difference
  split
  · exact ⟨_, rfl⟩
  · exact ⟨_, rfl⟩

def differences : Interpretation Empty integerSymbols where
  carrier := BasicCarrier
  function _ := difference
  truths := basicCarrier_bool
  integers := basicCarrier_int
  signature _ _ _ values signature _ := basicCarrier_difference signature values

/-- `(let ((x y) (y x)) (div (f x y) (- 2)))`. -/
def swappingQuotient : SExpr :=
  let symbol (name : Text) : SExpr := .atom (.symbol name false) .start
  let list (items : List SExpr) : SExpr := .list items .start
  list [symbol "let", list [list [symbol "x", symbol "y"],
    list [symbol "y", symbol "x"]],
    list [symbol "div", list [symbol "f", symbol "x", symbol "y"],
      list [symbol "-", .atom (.numeral "2") .start]]]

def quotientBinders : Binders :=
  [("x", .int), ("y", .int)]

def quotientEntries : List (Text × Text) :=
  (rootScope integerSymbols).pick [] [("x", []), ("y", [])]

def quotientTerm : Term :=
  .letIn [("x", .symbol "y" .int), ("y", .symbol "x" .int)]
    (.application (.operator .integerDivision) []
      [.application (.function "f") [] [.symbol "x" .int,
        .symbol "y" .int] .int,
        .application (.operator .subtraction) [] [.literal (.integer 2)] .int]
          .int)

/-- For `x = 7` and `y = 0` around the term, `-7` is divided by `-2`. -/
theorem swappingQuotient_preserves_meaning :
    readTerm integerSymbols (Scope.enter [] quotientBinders) swappingQuotient =
        .ok quotientTerm ∧
      (∃ reading : HolInterpretation Empty, reading.Reads differences) ∧
      ∀ reading : HolInterpretation Empty, reading.Reads differences →
        reading.textValue
            (Table.enter [] (quotientEntries.map Prod.snd)
              [.number 7, .number 0])
            "(let x'2 = y; y'1 = x'1 in (smt_div (f x'2 y'1) (- (2::int))))" =
          some (.number 4) := by
  have read : readTerm integerSymbols
      (Scope.enter [] quotientBinders) swappingQuotient =
      .ok quotientTerm := rfl
  have ground :
      ∀ binder ∈ quotientBinders,
        binder.snd.Ground integerSymbols.userSorts := by
    have sorts : ∀ binder ∈ quotientBinders, binder.snd = SmtSort.int := by
      decide +kernel
    exact fun binder member => sorts binder member ▸ int_ground
  have entered : HolScope.Entered integerSymbols
      ((rootScope integerSymbols).bind quotientEntries)
      ([] ++ quotientEntries) :=
    .bind .root (HolScope.picks_pick _ _ _)
  have carried :
      differences.Carries (quotientBinders.map Prod.snd)
        [.number 7, .number 0] :=
    .cons (.inr ⟨rfl, 7, rfl⟩) (.cons (.inr ⟨rfl, 0, rfl⟩) .nil)
  obtain ⟨read?, translated, shape, valued⟩ := translation_preserves_meaning
    grows_integerSymbols .refl ground read rfl entered (by rfl) differences
  obtain ⟨value, meaning, _, same⟩ := valued _ carried
  have four : quotientTerm.value differences
      (Table.enter [] (quotientBinders.map Prod.fst) [.number 7, .number 0]) =
        some (.number 4) := rfl
  obtain rfl := Option.some.inj (meaning.symm.trans four)
  have text :
      translated.text =
        "(let x'2 = y; y'1 = x'1 in (smt_div (f x'2 y'1) (- (2::int))))" := by
    obtain rfl := Except.ok.inj shape
    decide +kernel
  rw [text] at same
  exact ⟨read, read?, same⟩

end Translation

end ModelAudit
