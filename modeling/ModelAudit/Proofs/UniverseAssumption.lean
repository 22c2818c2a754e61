import ModelAudit.Proofs.Assembly
import ModelAudit.Proofs.Dependency
import ModelAudit.Proofs.Identifier
import ModelAudit.Proofs.SettledPair
import ModelAudit.Proofs.UniverseGroups

/-!
# The universe assumption

The propositions of the universe assumption list the constants that a model
declares for one sort. They are fit for elements of a universe if and only if
the model declares no constant twice, and those of a common sort without
definitions and for sorts that are uninterpreted.
-/

namespace ModelAudit

/-- A sort that was declared and has no other meaning. -/
def SmtSort.Uninterpreted (symbols : SymbolTable) (sort : SmtSort) : Prop :=
  ∃ name ∈ symbols.userSorts, name ∉ basicNames ∧ sort = simple name

namespace Obligation

/-- What is listed as distinct are different names without equations, of one
uninterpreted sort. -/
def ListsElements (symbols : SymbolTable) (obligation : Obligation) : Prop :=
  ∀ identifiers ∈ obligation.distinct,
    identifiers.Nodup ∧
      (∀ identifier ∈ identifiers,
        identifier ∉ obligation.equations.map Prod.fst) ∧
      ∃ sort, sort.Uninterpreted symbols ∧ ∀ identifier ∈ identifiers,
        ∃ name, identifier = Identifier.escape name ∧
          symbols.HasSignature name [] sort

/-- The constants that the model declares and the assertions depend on. -/
def declaredConstants (pair : Session.Pair) : List Declaration :=
  (declaredUniverse pair.formula pair.model).filter Declaration.isConstant

/-- The model declares no constant twice, and those of a common sort without
definitions and for an uninterpreted sort. -/
structure DeclaresElements (pair : Session.Pair) : Prop where
  nodup : ((declaredConstants pair).map Declaration.name).Nodup
  undefined : ∀ constant ∈ declaredConstants pair,
      ∀ other ∈ declaredConstants pair,
    other.name ≠ constant.name → other.result = constant.result →
    constant.name ∉ (kept pair.formula pair.model).map Definition.name
  uninterpreted :
      ∀ constant ∈ declaredConstants pair, ∀ other ∈ declaredConstants pair,
    other.name ≠ constant.name → other.result = constant.result →
    constant.result.Uninterpreted pair.symbols

/-- The names of the declared constants of a sort. -/
def listedNames (pair : Session.Pair) (sort : SmtSort) : List Text :=
  ((declaredConstants pair).filter fun constant => constant.result = sort).map
    Declaration.name

variable {operators : OperatorTable} {pair : Session.Pair}
  {obligation : Obligation} {sort : SmtSort} {name : Text}

theorem mem_listedNames :
    name ∈ listedNames pair sort ↔
      ∃ constant ∈ declaredConstants pair, constant.result = sort ∧
        constant.name = name := by
  simp [listedNames, and_assoc]

theorem listedNames_eq_namesOfSort :
    listedNames pair sort =
      Universe.namesOfSort (declaredUniverse pair.formula pair.model) sort := by
  rw [Universe.namesOfSort, listedNames, declaredConstants, List.filter_filter]
  simp only [Bool.and_comm]

/-- What is listed together are the declared constants of a sort, if they are
several. -/
theorem Assembled.mem_distinct (assembled : Assembled operators pair obligation)
    {identifiers : List Text} :
    identifiers ∈ obligation.distinct ↔
      ∃ sort, identifiers = (listedNames pair sort).map Identifier.escape ∧
        1 < (listedNames pair sort).length := by
  rw [assembled.distinct, List.mem_map]
  constructor
  · rintro ⟨⟨sort, names⟩, member, rfl⟩
    obtain ⟨shape, several⟩ := Universe.mem_groups.mp member
    rw [← listedNames_eq_namesOfSort] at shape
    exact ⟨sort, by rw [← shape], by rwa [← shape]⟩
  · rintro ⟨sort, rfl, several⟩
    exact ⟨(sort, listedNames pair sort),
      Universe.mem_groups.mpr ⟨listedNames_eq_namesOfSort, several⟩, rfl⟩

theorem signature_of_mem_listedNames (settled : pair.Settled)
    (member : name ∈ listedNames pair sort) :
    pair.symbols.HasSignature name [] sort := by
  obtain ⟨constant, inside, rfl, rfl⟩ := mem_listedNames.mp member
  obtain ⟨declared, isConstant⟩ := List.mem_filter.mp inside
  have signature :=
    settled.model.declarations constant (List.mem_filter.mp declared).1
  rwa [List.isEmpty_iff.mp isConstant] at signature

/-! ## Lists with several names -/

private theorem one_lt_length_of_mem {names : List Text} {other : Text}
    (member : name ∈ names) (otherMember : other ∈ names)
    (different : other ≠ name) :
    1 < names.length := by
  match names with
  | [] => cases member
  | [single] =>
      obtain rfl := List.mem_singleton.mp member
      exact absurd (List.mem_singleton.mp otherMember) different
  | _ :: _ :: _ => simp

private theorem nodup_of_not_one_lt_length {names : List Text}
    (short : ¬1 < names.length) :
    names.Nodup := by
  match names with
  | [] => exact List.nodup_nil
  | [single] => exact List.nodup_singleton single
  | _ :: _ :: _ => simp at short

private theorem exists_other_of_one_lt_length {names : List Text}
    (nodup : names.Nodup) (several : 1 < names.length) (name : Text) :
    ∃ other ∈ names, other ≠ name := by
  match names with
  | [] | [_] => simp at several
  | first :: second :: _ =>
      by_cases same : first = name
      · have different : first ≠ second := by
          rintro rfl
          simp at nodup
        exact ⟨second, by simp, fun again => different (same.trans again.symm)⟩
      · exact ⟨first, by simp, same⟩

/-- Elements have different names if those of each class have, and a name
determines the class. -/
private theorem nodup_of_classes {Element Class : Type} [DecidableEq Class]
    {elements : List Element} (name : Element → Text)
    (classOf : Element → Class)
    (determined : ∀ first ∈ elements, ∀ second ∈ elements,
      name first = name second →
      classOf first = classOf second)
    (classes : ∀ part,
      ((elements.filter fun element => classOf element = part).map
        name).Nodup) :
    (elements.map name).Nodup := by
  induction elements with
  | nil => exact List.nodup_nil
  | cons first others inductionHypothesis =>
      refine List.nodup_cons.mpr ⟨?_, inductionHypothesis ?_ ?_⟩
      · intro repeated
        obtain ⟨second, member, same⟩ := List.mem_map.mp repeated
        have sameClass :=
          determined second (List.mem_cons_of_mem _ member) first (by simp) same
        have nodup := classes (classOf first)
        rw [List.filter_cons_of_pos (by simp), List.map_cons, List.nodup_cons]
          at nodup
        exact nodup.1 (List.mem_map.mpr
          ⟨second, List.mem_filter.mpr ⟨member, by simp [sameClass]⟩, same⟩)
      · intro second member third thirdMember
        exact determined second (List.mem_cons_of_mem _ member) third
          (List.mem_cons_of_mem _ thirdMember)
      · intro part
        exact (classes part).sublist
          (((List.sublist_cons_self first others).filter _).map name)

/-! ## When the assumption lists elements -/

/-- Two declared constants of one sort are listed together. -/
theorem Assembled.mem_distinct_of_two
    (assembled : Assembled operators pair obligation)
    {constant other : Declaration} (member : constant ∈ declaredConstants pair)
    (otherMember : other ∈ declaredConstants pair)
    (different : other.name ≠ constant.name)
    (sorts : other.result = constant.result) :
    ∃ identifiers ∈ obligation.distinct, Identifier.escape constant.name ∈
      identifiers := by
  have inside : constant.name ∈ listedNames pair constant.result :=
    mem_listedNames.mpr ⟨constant, member, rfl, rfl⟩
  have otherInside : other.name ∈ listedNames pair constant.result :=
    mem_listedNames.mpr ⟨other, otherMember, sorts, rfl⟩
  have several := one_lt_length_of_mem inside otherInside different
  exact ⟨_, assembled.mem_distinct.mpr ⟨constant.result, rfl, several⟩,
    List.mem_map_of_mem inside⟩

/-- If what is listed are different elements of their sorts, the model declares
them as it should. -/
theorem declaresElements_of_listsElements (settled : pair.Settled)
    (assembled : Assembled operators pair obligation)
    (lists : obligation.ListsElements pair.symbols) :
    DeclaresElements pair where
  nodup := by
    apply nodup_of_classes _ Declaration.result
    · intro first firstMember second secondMember same
      have signature := signature_of_mem_listedNames settled
        (mem_listedNames.mpr ⟨first, firstMember, rfl, same⟩)
      have other := signature_of_mem_listedNames settled
        (mem_listedNames.mpr ⟨second, secondMember, rfl, rfl⟩)
      exact (signature.unique other).2
    · intro sort
      by_cases several : 1 < (listedNames pair sort).length
      · have listed := assembled.mem_distinct.mpr ⟨sort, rfl, several⟩
        exact (lists _ listed).1.of_map
      · exact nodup_of_not_one_lt_length several
  undefined constant member other otherMember different sorts defined := by
    obtain ⟨identifiers, listed, inside⟩ :=
      assembled.mem_distinct_of_two member otherMember different sorts
    apply (lists identifiers listed).2.1 _ inside
    rw [assembled.map_fst_equations]
    obtain ⟨definition, kept, named⟩ := List.mem_map.mp defined
    exact List.mem_map.mpr ⟨definition, kept, by rw [named]⟩
  uninterpreted constant member other otherMember different sorts := by
    obtain ⟨identifiers, listed, inside⟩ :=
      assembled.mem_distinct_of_two member otherMember different sorts
    obtain ⟨sort, uninterpreted, signatures⟩ := (lists identifiers listed).2.2
    obtain ⟨name, same, signature⟩ := signatures _ inside
    rw [← Identifier.escape_injective same] at signature
    have own := signature_of_mem_listedNames settled
      (mem_listedNames.mpr ⟨constant, member, rfl, rfl⟩)
    rwa [(own.unique signature).2]

/-- If the model declares elements as it should, what is listed are different
elements of their sorts. -/
theorem listsElements_of_declaresElements (settled : pair.Settled)
    (assembled : Assembled operators pair obligation)
    (declares : DeclaresElements pair) :
    obligation.ListsElements pair.symbols := by
  intro identifiers listed
  obtain ⟨sort, rfl, several⟩ := assembled.mem_distinct.mp listed
  have nodup : (listedNames pair sort).Nodup :=
    declares.nodup.sublist (List.filter_sublist.map Declaration.name)
  -- Every listed name belongs to a declared constant, and there is another one
  -- of its sort.
  have each : ∀ name ∈ listedNames pair sort,
      name ∉ (kept pair.formula pair.model).map Definition.name ∧
        sort.Uninterpreted pair.symbols := by
    intro name member
    obtain ⟨constant, inside, rfl, rfl⟩ := mem_listedNames.mp member
    obtain ⟨name, otherMember, different⟩ :=
      exists_other_of_one_lt_length nodup several constant.name
    obtain ⟨other, otherInside, sorts, rfl⟩ := mem_listedNames.mp otherMember
    exact ⟨declares.undefined constant inside other otherInside different sorts,
      declares.uninterpreted constant inside other otherInside different sorts⟩
  refine ⟨nodup.map Identifier.escape_injective, ?_, sort, ?_, ?_⟩
  · intro identifier inside equated
    obtain ⟨name, member, rfl⟩ := List.mem_map.mp inside
    rw [assembled.map_fst_equations] at equated
    obtain ⟨definition, kept, same⟩ := List.mem_map.mp equated
    exact (each name member).1
      (List.mem_map.mpr ⟨definition, kept, Identifier.escape_injective same⟩)
  · obtain ⟨name, member⟩ :=
      List.exists_mem_of_length_pos (Nat.zero_lt_of_lt several)
    exact (each name member).2
  · intro identifier inside
    obtain ⟨name, member, rfl⟩ := List.mem_map.mp inside
    exact ⟨name, rfl, signature_of_mem_listedNames settled member⟩

/-- What the universe assumption of a lemma lists is fit for elements of
universes if and only if the model declares such elements only. -/
theorem universe_listsElements_iff {formulaText modelOutput : Text}
    (read : Session.readPair formulaText modelOutput = .ok pair)
    (assembled : ofPair operators pair = .ok obligation) :
    obligation.ListsElements pair.symbols ↔ DeclaresElements pair :=
  have settled := Session.readPair_settled read
  ⟨declaresElements_of_listsElements settled (assembled_of_ofPair assembled),
    listsElements_of_declaresElements settled (assembled_of_ofPair assembled)⟩

/-- The formula `c = c` over an uninterpreted sort, and a model that declares
its element twice. -/
def repeatedElement : Session.Pair where
  formula :=
    ⟨[.application (.operator .equality) []
      [.symbol "c" (.simple "S"), .symbol "c" (.simple "S")] .bool], []⟩
  model :=
    ⟨[⟨⟨"c", [], .simple "S", .defined⟩, [], .symbol "a" (.simple "S")⟩],
      [⟨"a", [], .simple "S", .declared⟩, ⟨"a", [], .simple "S", .declared⟩]⟩
  symbols :=
    ⟨[("c", ⟨"c", [], .simple "S", .defined⟩),
      ("a", ⟨"a", [], .simple "S", .declared⟩)],
      [("S", 0)], []⟩

theorem reached_repeatedElement :
    reached repeatedElement.formula repeatedElement.model =
      (["=", "a", "c"] : List Text) := by
  have first : repeatedElement.formula.assertions.flatMap Term.freeNames =
      (["c", "c", "="] : List Text) := by
    decide +kernel
  rw [reached, Reachability.reachedNames, first,
    Reachability.visit_of_found (by decide +kernel) rfl]
  change Reachability.visit [] (["c"] : List Text)
    (["a", "c", "="] : List Text) = _
  rw [Reachability.visit_of_absent (by decide +kernel) rfl,
    Reachability.visit_of_seen (by decide +kernel),
    Reachability.visit_of_absent (by decide +kernel) rfl, Reachability.visit]

/-- The pair is read and its lemma is assembled, although the assumption
contradicts itself. -/
theorem repeatedElement_listed_twice :
    Session.readPair "(declare-sort S 0)(declare-const c S)(assert (= c c))"
          "(declare-const a S)(declare-const a S)(define-fun c () S a)" =
        .ok repeatedElement ∧
      (ofPair .default repeatedElement).toOption.map
          (fun obligation => obligation.distinct.map distinctText) =
        some (["distinct [a, a]"] : List Text) ∧
      ¬DeclaresElements repeatedElement ∧
      ∀ obligation, ofPair .default repeatedElement = .ok obligation →
        ¬obligation.ListsElements repeatedElement.symbols := by
  have read : Session.readPair
      "(declare-sort S 0)(declare-const c S)(assert (= c c))"
        "(declare-const a S)(declare-const a S)(define-fun c () S a)" =
          .ok repeatedElement :=
    Outcome.toOption_eq_some_iff.mp (by decide +kernel)
  have texts : (ofPair .default repeatedElement).toOption.map
      (fun obligation => obligation.distinct.map distinctText) =
        some (["distinct [a, a]"] : List Text) := by
    rw [ofPair, reached_repeatedElement]
    decide +kernel
  have repeats : ¬DeclaresElements repeatedElement := by
    intro declares
    have nodup := declares.nodup
    rw [declaredConstants, declaredUniverse, reached_repeatedElement] at nodup
    exact absurd nodup (by decide +kernel)
  refine ⟨read, texts, repeats, fun obligation assembled => ?_⟩
  exact mt (universe_listsElements_iff read assembled).mp repeats

end Obligation

end ModelAudit
