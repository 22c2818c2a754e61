import ModelAudit.Proofs.LegibleTranslation
import ModelAudit.Theory.Obligation

/-!
# Types are told apart by their texts

The text of a type is read as that type, and the text of a signature as the
types between its outermost arrows. So no two sorts are written alike, and no
two signatures are. In particular a function of one argument is not written like
a constant whose sort is an array.
-/

namespace ModelAudit

open InnerSyntax

namespace InnerSyntax

variable {text : Text} {items others : List Phrase} {type : HolType}

/-- A text is grouped in one way only. -/
theorem Yields.unique (yields : Yields text items)
    (othersYields : Yields text others) :
    items = others := by
  have grouped := (yields [] [] []).symm.trans (othersYields [] [] [])
  simpa [phrases] using grouped

/-- All arrows of a type stand between parentheses. -/
theorem arrow_not_mem_of_readType (read : readType items = some type) :
    .word arrowSymbol ∉ items := by
  unfold readType at read
  split at read
  · next phrase =>
    intro member
    obtain rfl := List.mem_singleton.mp member
    have unknown : isTypeName arrowSymbol = false := by decide
    rw [readPhraseType, unknown] at read
    cases read
  · next digits constructor =>
    obtain ⟨known, _⟩ := Option.ite_none_right_eq_some.mp read
    obtain ⟨numeral, isWord⟩ := Bool.and_eq_true_iff.mp known
    intro member
    rcases List.mem_pair.mp member with same | same
    · rw [← Phrase.word.inj same] at numeral
      exact absurd numeral (by decide)
    · rw [← Phrase.word.inj same] at isWord
      exact absurd isWord (by decide)
  · cases read

end InnerSyntax

namespace HolType

variable {types others : List HolType}

/-- Types with arrows between them are grouped into the phrases of the types. -/
theorem yields_join_arrow (nonempty : types ≠ [])
    (legible : ∀ type ∈ types, type.Legible) :
    ∃ groups, List.Forall₂ (fun type items => readType items = some type) types
        groups ∧
      Yields (Text.join " \\<Rightarrow> " (types.map text))
        ([.word arrowSymbol].intercalate groups) := by
  induction types with
  | nil => exact absurd rfl nonempty
  | cons first others inductionHypothesis =>
      obtain ⟨here, later⟩ := List.forall_mem_cons.mp legible
      obtain ⟨items, firstYields, read⟩ := here.yields
      cases others with
      | nil =>
          refine ⟨[items], .cons read .nil, ?_⟩
          rw [List.map_singleton, Text.join, List.intercalate_singleton,
            List.intercalate_singleton]
          exact firstYields
      | cons second others =>
          obtain ⟨groups, groupsRead, othersYield⟩ :=
            inductionHypothesis (List.cons_ne_nil _ _) later
          refine ⟨items :: groups, .cons read groupsRead, ?_⟩
          obtain ⟨group, groups, rfl⟩ :
              ∃ group rest, groups = group :: rest := by
            cases groupsRead
            exact ⟨_, _, rfl⟩
          rw [List.map_cons, List.map_cons, Text.join,
            List.intercalate_cons_cons, List.intercalate_cons_cons]
          exact firstYields.around isMark_arrow othersYield

/-- The types between arrows are found again. -/
theorem join_arrow_injective (nonempty : types ≠ [])
    (othersNonempty : others ≠ []) (legible : ∀ type ∈ types, type.Legible)
    (othersLegible : ∀ type ∈ others, type.Legible)
    (same : Text.join " \\<Rightarrow> " (types.map text) =
      Text.join " \\<Rightarrow> " (others.map text)) :
    types = others := by
  classical
  obtain ⟨groups, read, yields⟩ := yields_join_arrow nonempty legible
  obtain ⟨otherGroups, otherRead, otherYields⟩ :=
    yields_join_arrow othersNonempty othersLegible
  have apart {types : List HolType} {groups : List (List Phrase)}
      (nonempty : types ≠ [])
      (read : List.Forall₂ (fun type items => readType items = some type)
        types groups) :
      ([.word arrowSymbol].intercalate groups).splitOn (.word arrowSymbol) =
        groups := by
    refine List.splitOn_intercalate _ (fun items member => ?_) ?_
    · obtain ⟨type, _, typeRead⟩ := Outcome.exists_source_of_forall₂ read member
      exact arrow_not_mem_of_readType typeRead
    · rintro rfl
      cases read
      exact nonempty rfl
  have sameGroups : groups = otherGroups := by
    rw [← apart nonempty read, yields.unique (same ▸ otherYields),
      apart othersNonempty otherRead]
  rw [sameGroups] at read
  refine List.left_unique_forall₂'
    (fun left right items leftRead rightRead => ?_) read otherRead
  exact Option.some.inj (leftRead.symm.trans rightRead)

theorem Legible.text_injective {type other : HolType} (legible : type.Legible)
    (otherLegible : other.Legible) (same : type.text = other.text) :
    type = other := by
  obtain ⟨items, yields, read⟩ := legible.yields
  obtain ⟨otherItems, otherYields, otherRead⟩ := otherLegible.yields
  rw [same] at yields
  rw [yields.unique otherYields, otherRead] at read
  exact (Option.some.inj read).symm

theorem curriedText_injective {arguments otherArguments : List HolType}
    {result other : HolType}
    (legible : ∀ type ∈ arguments ++ [result], type.Legible)
    (otherLegible : ∀ type ∈ otherArguments ++ [other], type.Legible)
    (same : curriedText arguments result = curriedText otherArguments other) :
    arguments = otherArguments ∧ result = other := by
  have types :=
    join_arrow_injective (by simp) (by simp) legible otherLegible same
  obtain ⟨sameArguments, sameResult⟩ := List.append_inj' types rfl
  exact ⟨sameArguments, List.singleton_inj.mp sameResult⟩

end HolType

/-! ## Sorts and signatures -/

namespace SmtSort

variable {names : List Text} {sorts others : List SmtSort}

def typeText (names : List Text) (sort : SmtSort) : Except Unsupported Text :=
  (sort.toHol names).map HolType.text

/-- The text of the curried type of a function with these argument sorts and
this result sort. -/
def curriedText (names : List Text) (arguments : List SmtSort)
    (result : SmtSort) : Except Unsupported Text := do
  let argumentTypes ← arguments.mapM fun sort => sort.toHol names
  let resultType ← result.toHol names
  return HolType.curriedText argumentTypes resultType

theorem typeText_eq_ok {sort : SmtSort} {text : Text} :
    typeText names sort = .ok text ↔ ∃ type, sort.toHol names = .ok type ∧
    type.text = text := by
  rw [typeText]
  cases sort.toHol names <;> simp [Except.map]

/-- The text of a signature is made of the types of its sorts. -/
theorem curriedText_eq_ok {arguments : List SmtSort} {result : SmtSort}
    {text : Text} :
    curriedText names arguments result = .ok text ↔
      ∃ argumentTypes resultType,
        List.Forall₂ (fun sort type => sort.toHol names = .ok type)
          arguments argumentTypes ∧
        result.toHol names = .ok resultType ∧
        HolType.curriedText argumentTypes resultType = text := by
  constructor
  · intro written
    obtain ⟨argumentTypes, argumentsTranslated, written⟩ :=
      Outcome.bind_eq_ok.mp written
    obtain ⟨resultType, resultTranslated, written⟩ :=
      Outcome.bind_eq_ok.mp written
    exact ⟨argumentTypes, resultType, Outcome.mapM_eq_ok.mp argumentsTranslated,
      resultTranslated, Except.ok.inj written⟩
  · rintro ⟨argumentTypes, resultType, argumentsTranslated,
      resultTranslated, rfl⟩
    rw [curriedText, Outcome.mapM_eq_ok.mpr argumentsTranslated,
      resultTranslated]
    rfl

/-- Lists of ground sorts with the same types are the same. -/
theorem toHol_injective_of_ground {types : List HolType}
    (ground : ∀ sort ∈ sorts, sort.Ground names)
    (othersGround : ∀ sort ∈ others, sort.Ground names)
    (translated : List.Forall₂ (fun sort type => sort.toHol names = .ok type)
      sorts types)
    (othersTranslated : List.Forall₂
      (fun sort type => sort.toHol names = .ok type) others types) :
    sorts = others := by
  induction translated generalizing others with
  | nil =>
      cases othersTranslated
      rfl
  | cons here _ inductionHypothesis =>
      cases othersTranslated with
      | cons otherHere othersLater =>
          obtain ⟨firstGround, laterGround⟩ := List.forall_mem_cons.mp ground
          obtain ⟨otherFirst, otherLater⟩ :=
            List.forall_mem_cons.mp othersGround
          rw [firstGround.toHol_injective otherFirst here otherHere,
            inductionHypothesis laterGround otherLater othersLater]

theorem legible_of_ground {sorts : List SmtSort} {types : List HolType}
    (ground : ∀ sort ∈ sorts, sort.Ground names)
    (translated : List.Forall₂ (fun sort type => sort.toHol names = .ok type)
      sorts types) :
    ∀ type ∈ types, type.Legible :=
  Outcome.forall_mem_of_forall₂ translated fun sort member _ holds =>
    (ground sort member).legible holds

/-- A ground sort has a text, and no other ground sort has the same text. -/
theorem Ground.exists_typeText {sort : SmtSort} (ground : sort.Ground names) :
    ∃ text, typeText names sort = .ok text ∧
      ∀ other, other.Ground names → typeText names other = .ok text →
        other = sort := by
  obtain ⟨type, translated⟩ := ground.toHol_ok
  refine ⟨type.text, typeText_eq_ok.mpr ⟨type, translated, rfl⟩, ?_⟩
  intro other otherGround otherWritten
  obtain ⟨otherType, otherTranslated, same⟩ := typeText_eq_ok.mp otherWritten
  obtain rfl :=
    (otherGround.legible otherTranslated).text_injective
      (ground.legible translated)
    same
  exact otherGround.toHol_injective ground otherTranslated translated

/-- A signature over ground sorts has a text, and no other signature has the
same text. -/
theorem exists_curriedText_of_ground {arguments : List SmtSort}
    {result : SmtSort}
    (ground : ∀ sort ∈ arguments ++ [result], sort.Ground names) :
    ∃ text, curriedText names arguments result = .ok text ∧
      ∀ others other, (∀ sort ∈ others ++ [other], sort.Ground names) →
        curriedText names others other = .ok text → others = arguments ∧
        other = result := by
  obtain ⟨argumentsGround, resultGround⟩ := List.forall_mem_append.mp ground
  obtain ⟨argumentTypes, argumentsTranslated⟩ := Outcome.exists_mapM_eq_ok
    fun sort member => (argumentsGround sort member).toHol_ok
  rw [Outcome.mapM_eq_ok] at argumentsTranslated
  obtain ⟨resultType, resultTranslated⟩ :=
    (List.forall_mem_singleton.mp resultGround).toHol_ok
  have translated :=
    List.rel_append argumentsTranslated (.cons resultTranslated .nil)
  refine ⟨HolType.curriedText argumentTypes resultType, curriedText_eq_ok.mpr
    ⟨_, _, argumentsTranslated, resultTranslated, rfl⟩, ?_⟩
  intro others other othersGround written
  obtain ⟨otherTypes, otherType, othersTranslated, otherTranslated, same⟩ :=
    curriedText_eq_ok.mp written
  have allTranslated :=
    List.rel_append othersTranslated (.cons otherTranslated .nil)
  obtain ⟨rfl, rfl⟩ :=
    HolType.curriedText_injective (legible_of_ground othersGround allTranslated)
      (legible_of_ground ground translated) same
  have sorts :=
    toHol_injective_of_ground othersGround ground allTranslated translated
  obtain ⟨sameArguments, sameResult⟩ := List.append_inj' sorts rfl
  exact ⟨sameArguments, List.singleton_inj.mp sameResult⟩

/-- Every ground sort and every signature over ground sorts has a text of its
own. -/
theorem curriedTexts_injective (names : List Text) :
    (∀ sort : SmtSort, sort.Ground names →
      ∃ text, typeText names sort = .ok text ∧
        ∀ other : SmtSort, other.Ground names →
          typeText names other = .ok text →
          other = sort) ∧
    ∀ (arguments : List SmtSort) (result : SmtSort),
      (∀ sort ∈ arguments ++ [result], sort.Ground names) →
      ∃ text, curriedText names arguments result = .ok text ∧
        ∀ (others : List SmtSort) (other : SmtSort),
          (∀ sort ∈ others ++ [other], sort.Ground names) →
          curriedText names others other = .ok text → others = arguments ∧
          other = result :=
  ⟨fun _ ground => ground.exists_typeText,
    fun _ _ ground => exists_curriedText_of_ground ground⟩

/-- A function of one argument is not written like an array. -/
theorem function_not_written_as_array :
    (∀ sort ∈ [SmtSort.array .int (simple "Node")], sort.Ground ["Node"]) ∧
    (∀ sort ∈ [SmtSort.int, simple "Node"], sort.Ground ["Node"]) ∧
    ∃ text, curriedText ["Node"] [] (.array .int (simple "Node")) = .ok text ∧
      curriedText ["Node"] [.int] (simple "Node") ≠ .ok text := by
  have int : SmtSort.int.Ground ["Node"] := .basic (by decide)
  have node : (simple "Node").Ground ["Node"] := .named (by decide)
  have array :
      ∀ sort ∈ [SmtSort.array .int (simple "Node")], sort.Ground ["Node"] :=
    List.forall_mem_singleton.mpr (.array int node)
  have function : ∀ sort ∈ [SmtSort.int, simple "Node"], sort.Ground ["Node"] :=
    List.forall_mem_cons.mpr ⟨int, List.forall_mem_singleton.mpr node⟩
  refine ⟨array, function, ?_⟩
  obtain ⟨text, written, unique⟩ :=
    (curriedTexts_injective ["Node"]).2 [] _ array
  refine ⟨text, written, fun same => ?_⟩
  cases (unique [.int] (simple "Node") function same).1

end SmtSort

/-! ## Fixed symbols -/

/-- The lemma fixes a declared symbol with the text of its signature. -/
theorem Obligation.fixedSymbol_curriedText (words : Translation.Vocabulary)
    (declaration : Declaration) :
    (fixedSymbol words declaration).map
        (fun (_, arguments, result) => HolType.curriedText arguments result) =
      SmtSort.curriedText words.userSorts declaration.arguments
        declaration.result := by
  unfold fixedSymbol SmtSort.curriedText
  simp only [Outcome.map_bind]
  rfl

end ModelAudit
