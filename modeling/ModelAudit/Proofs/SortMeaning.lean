import ModelAudit.Proofs.SortCommands
import ModelAudit.Proofs.SortPatterns

/-!
# Meanings of sort expressions

An alias means a function of its arguments: its body as it is written, read
where the alias is defined, with the arguments for the parameters. Nothing is
substituted there, so no parameter can be taken for a sort. Reading finds these
meanings if no alias in use has, in its body, a sort with the name of a
parameter.
-/

namespace ModelAudit

/-- What the names of sorts mean at some place of a script. -/
structure SortEnvironment where
  declared : List Text
  /-- The aliases as functions of their arguments. -/
  aliases : Table (List SmtSort → Option SmtSort)

namespace SortEnvironment

def empty : SortEnvironment :=
  ⟨[], []⟩

/-- The meaning of a name that stands alone. -/
def named? (environment : SortEnvironment) (name : Text) : Option SmtSort :=
  match environment.aliases.find? name with
  | some function => function []
  | none =>
    match SmtSort.builtin? name [] [] with
    | some sort => some sort
    | none =>
      if environment.declared.contains name then some (.simple name) else none

/-- The meaning of a name that is applied to sorts. -/
def applied? (environment : SortEnvironment) (name : Text)
    (arguments : List SmtSort) : Option SmtSort :=
  match environment.aliases.find? name with
  | some function => function arguments
  | none => SmtSort.builtin? name arguments []

mutual

/-- The sort that an expression means. A parameter hides whatever else has its
name; an indexed identifier means the same everywhere. -/
def meaning (environment : SortEnvironment) (param? : Text → Option SmtSort) :
    SExpr → Option SmtSort
  | .atom leaf _ =>
    match leaf with
    | .symbol name _ =>
      match param? name with
      | some sort => some sort
      | none => environment.named? name
    | _ => none
  | .list [] _ => none
  | .list (head :: items) position =>
    if head.isSymbol "_"
      then (indexedSort items (.list (head :: items) position)).toOption
    else do
      let name ← head.symbol?
      let arguments ← meanings environment param? items
      environment.applied? name arguments

def meanings (environment : SortEnvironment) (param? : Text → Option SmtSort) :
    List SExpr → Option (List SmtSort)
  | [] => some []
  | expression :: expressions => do
    let sort ← meaning environment param? expression
    let sorts ← meanings environment param? expressions
    return sort :: sorts

end

/-- What an alias means that is defined here. -/
def function (environment : SortEnvironment) (written : SExpr.WrittenAlias)
    (arguments : List SmtSort) : Option SmtSort :=
  if written.params.length = arguments.length then
    environment.meaning (Table.ofPairs (written.params.zip arguments)).find?
      written.body
  else none

def declareSort (environment : SortEnvironment) (name : Text) :
    SortEnvironment :=
  { environment with declared := name :: environment.declared }

def defineSort (environment : SortEnvironment) (written : SExpr.WrittenAlias) :
    SortEnvironment :=
  { environment with
    aliases := environment.aliases.insert written.name
      (environment.function written) }

/-- The environment after a command. -/
def after (environment : SortEnvironment) (expression : SExpr) :
    SortEnvironment :=
  match expression.declaredSort?, expression.definedSort? with
  | some name, _ => environment.declareSort name
  | none, some written => environment.defineSort written
  | none, none => environment

def ofCommands (commands : List SExpr) : SortEnvironment :=
  commands.foldl after empty

/-- Some sort in the body of the alias has the name of a parameter: it stands
there even with bit-vectors for all parameters. An alias called by an underscore
is never applied, since a list that starts with one is an indexed identifier. -/
def Captures (environment : SortEnvironment)
    (written : SExpr.WrittenAlias) : Prop :=
  written.name ≠ "_" ∧ ∃ param ∈ written.params, ∃ sort,
    environment.function written
      (List.replicate written.params.length (.bitVec 1)) = some sort ∧
      sort.Mentions param

end SortEnvironment

namespace SortPattern

def argument (params : List Text) (arguments : List SortPattern) (name : Text) :
    SortPattern :=
  ((Table.ofPairs (params.zip arguments)).find? name).getD (.named name)

/-- Parameters with these values. -/
def valued (params : List Text) (value : Text → SmtSort) (name : Text) :
    Option SmtSort :=
  if params.contains name then some (value name) else none

theorem fill_argument (params : List Text) (arguments : List SortPattern)
    (name : Text) (value : Text → SmtSort) :
    (argument params arguments name).fill value =
      valueIn (Table.ofPairs (params.zip (arguments.map (fill value))))
        name := by
  rw [argument, valueIn, Table.find?_zip_map]
  cases (Table.ofPairs (params.zip arguments)).find? name with
  | none => rfl
  | some pattern => rfl

/-- A name is that of a built-in sort whatever sorts it is applied to. -/
theorem exists_builtin (name : Text) (arguments : List SortPattern) :
    ∃ pattern? : Option SortPattern, ∀ value,
      SmtSort.builtin? name (arguments.map (fill value)) [] = pattern?.map
        (fill value) := by
  match arguments with
  | [] =>
      by_cases basic : SmtSort.basicNames.contains name = true
      · exact ⟨some (.named name), fun _ => if_pos basic⟩
      · exact ⟨none, fun _ => if_neg basic⟩
  | [index, element] =>
      by_cases array : name = ("Array" : Text)
      · exact ⟨some (.array index element), fun _ => if_pos array⟩
      · exact ⟨none, fun _ => if_neg array⟩
  | [_] | _ :: _ :: _ :: _ => exact ⟨none, fun _ => rfl⟩

/-- Indexed identifiers are bit-vectors. -/
theorem eq_bitVec_of_indexedSort {items : List SExpr} {expression : SExpr}
    {sort : SmtSort} (read : indexedSort items expression = .ok sort) :
    ∃ width, sort = .bitVec width := by
  match items with
  | [] | [_] => cases read
  | head :: first :: others =>
      rw [indexedSort] at read
      split at read
      · cases read
      · obtain ⟨indices, numerals, read⟩ := Outcome.bind_eq_ok.mp read
        split at read
        · next known =>
          obtain rfl := Except.ok.inj read
          cases Outcome.mapM_eq_ok.mp numerals with
          | @cons _ index _ indices _ _ =>
              cases indices with
              | nil =>
                  simp only [List.map_cons, List.map_nil, SmtSort.builtin?,
                    Option.ite_none_right_eq_some, Option.some.injEq] at known
                  exact ⟨index, known.2.symm⟩
              | cons _ _ => cases known
        · cases read

theorem exists_indexed (items : List SExpr) (expression : SExpr) :
    ∃ pattern? : Option SortPattern, ∀ value,
      (indexedSort items expression).toOption = pattern?.map (fill value) := by
  cases read : indexedSort items expression with
  | error fault => exact ⟨none, fun _ => rfl⟩
  | ok sort =>
      obtain ⟨width, rfl⟩ := eq_bitVec_of_indexedSort read
      exact ⟨some (.bitVec width), fun _ => rfl⟩

end SortPattern

open SortPattern

/-- The alias of the symbol table and the function of the environment come from
one pattern, in which no sort has the name of a parameter. -/
inductive FitsAlias (name : Text) :
    Option SortAlias → Option (List SmtSort → Option SmtSort) → Prop
  | absent : FitsAlias name none none
  | present (sortAlias : SortAlias) (function : List SmtSort → Option SmtSort)
      (pattern : SortPattern) :
      sortAlias.body = pattern.fill .simple →
      (name ≠ "_" → ∀ other ∈ pattern.names, other ∉ sortAlias.params) →
      (∀ arguments, function arguments =
        if sortAlias.params.length = arguments.length then
          some (pattern.fill
            (valueIn (Table.ofPairs (sortAlias.params.zip arguments))))
        else none) →
      FitsAlias name (some sortAlias) (some function)

/-- The symbol table is right about the meanings of an environment. -/
structure SortEnvironment.AgreesWith (environment : SortEnvironment)
    (symbols : SymbolTable) :
    Prop where
  declared : ∀ name, symbols.sorts.find? name = some 0 ↔
      name ∈ environment.declared
  aliases : ∀ name,
    FitsAlias name (symbols.aliases.find? name) (environment.aliases.find? name)

variable {environment : SortEnvironment} {symbols : SymbolTable} {name : Text}
  {params : List Text} {expression : SExpr}

/-- Substituting arguments gives the parameters their values. -/
theorem find?_zip_eq_valued {arguments : List SmtSort}
    (lengths : params.length = arguments.length) :
    (Table.ofPairs (params.zip arguments)).find? =
      valued params (valueIn (Table.ofPairs (params.zip arguments))) := by
  funext name
  have outside : (Table.ofPairs (params.zip arguments)).find? name = none ↔
    name ∉ params :=
    Table.find?_zip_eq_none_iff lengths
  rw [valued, valueIn]
  cases found : (Table.ofPairs (params.zip arguments)).find? name with
  | none =>
    rw [if_neg fun member => outside.mp found (List.contains_iff_mem.mp member)]
  | some value =>
      have member : name ∈ params := by
        by_contra absent
        cases (outside.mpr absent).symm.trans found
      rw [if_pos (List.contains_iff_mem.mpr member)]
      rfl

/-- What is computed with the names of parameters and what is meant with their
values come from one pattern, or there is neither. -/
def Patterned (computed : Option SmtSort)
    (meant : (Text → SmtSort) → Option SmtSort) : Prop :=
  ∃ pattern? : Option SortPattern, computed = pattern?.map (fill .simple) ∧
    ∀ value, meant value = pattern?.map (fill value)

/-- Applying an alias fills its pattern. -/
theorem patterned_expandAlias {sortAlias : SortAlias}
    {function : List SmtSort → Option SmtSort}
    (fits : FitsAlias name (some sortAlias) (some function))
    (arguments : List SortPattern)
    (applicable : name ≠ "_" ∨ arguments = []) (expression : SExpr) :
    Patterned (expandAlias name sortAlias
        (arguments.map (fill .simple)) expression).toOption
      fun value => function (arguments.map (fill value)) := by
  cases fits with
  | present _ _ pattern body apart applied =>
  have filled (value : Text → SmtSort) :
      pattern.fill
        (valueIn (Table.ofPairs
          (sortAlias.params.zip (arguments.map (fill value))))) =
        (pattern.bind (argument sortAlias.params arguments)).fill value := by
    rw [fill_bind]
    congr 1
    funext name
    rw [fill_argument]
  by_cases lengths : sortAlias.params.length = arguments.length
  · have outside : ∀ other ∈ pattern.names, other ∉ sortAlias.params := by
      rcases applicable with named | rfl
      · exact apart named
      · rw [List.length_eq_zero_iff.mp lengths]
        exact fun _ _ => List.not_mem_nil
    refine ⟨some (pattern.bind (argument sortAlias.params arguments)), ?_,
      fun value => ?_⟩
    · rw [expandAlias, if_pos (by rw [lengths, List.length_map]),
        SortAlias.instantiate, body, substitute_fill, filled]
      · rfl
      · intro other member
        exact (Table.find?_zip_eq_none_iff
          (by rw [lengths, List.length_map])).mpr (outside other member)
    · exact (applied _).trans ((if_pos (by rw [lengths, List.length_map])).trans
        (congrArg some (filled value)))
  · refine ⟨none, ?_, fun value => ?_⟩
    · rw [expandAlias, if_neg (by rwa [List.length_map])]
      rfl
    · exact (applied _).trans (if_neg (by rwa [List.length_map]))

/-- A name alone is read as it is meant. -/
theorem patterned_sortOfName (agrees : environment.AgreesWith symbols)
    (expression : SExpr) (free : ¬params.contains name = true) :
    Patterned (sortOfName symbols params name expression).toOption
      fun _ => environment.named? name := by
  rw [sortOfName, if_neg free]
  simp only [SortEnvironment.named?]
  have fits := agrees.aliases name
  generalize symbols.aliases.find? name = sortAlias? at fits ⊢
  generalize environment.aliases.find? name = function? at fits ⊢
  cases fits with
  | present sortAlias function pattern body apart applied =>
      exact patterned_expandAlias
        (.present sortAlias function pattern body apart applied) []
        (.inr rfl) expression
  | absent =>
      obtain ⟨pattern?, builtin⟩ : ∃ pattern? : Option SortPattern, ∀ value,
          SmtSort.builtin? name [] [] = pattern?.map (fill value) :=
            exists_builtin name []
      cases pattern? with
      | some pattern =>
          refine ⟨some pattern, ?_, fun value => ?_⟩
          · rw [builtin .simple]
            rfl
          · rw [builtin value]
            rfl
      | none =>
          rw [builtin .simple]
          dsimp only [Option.map_none]
          by_cases declared : name ∈ environment.declared
          · rw [if_pos ((agrees.declared name).mpr declared),
              if_pos (List.contains_iff_mem.mpr declared)]
            exact ⟨some (.named name), rfl, fun _ => rfl⟩
          · rw [if_neg fun found => declared ((agrees.declared name).mp found),
              if_neg fun found => declared (List.contains_iff_mem.mp found)]
            exact ⟨none, rfl, fun _ => rfl⟩

/-- A name applied to sorts is read as it is meant. -/
theorem patterned_appliedSort (agrees : environment.AgreesWith symbols)
    (arguments : List SortPattern) (applicable : name ≠ "_")
    (expression : SExpr) :
    Patterned (appliedSort symbols name
        (arguments.map (fill .simple)) expression).toOption
      fun value => environment.applied? name (arguments.map (fill value)) := by
  simp only [appliedSort, SortEnvironment.applied?]
  have fits := agrees.aliases name
  generalize symbols.aliases.find? name = sortAlias? at fits ⊢
  generalize environment.aliases.find? name = function? at fits ⊢
  cases fits with
  | present sortAlias function pattern body apart applied =>
      exact patterned_expandAlias
        (.present sortAlias function pattern body apart applied) arguments
        (.inl applicable) expression
  | absent =>
      obtain ⟨pattern?, builtin⟩ := exists_builtin name arguments
      refine ⟨pattern?, ?_, builtin⟩
      dsimp only
      rw [builtin]
      cases pattern? with
      | none => rfl
      | some pattern => rfl

mutual

/-- Reading a sort with the names of parameters, and its meaning with values for
them, come from one pattern. -/
theorem readSort_patterned (agrees : environment.AgreesWith symbols)
    (params : List Text) :
    (expression : SExpr) →
    Patterned (readSort symbols params expression).toOption
      fun value => environment.meaning (valued params value) expression
  | .atom leaf position => by
      cases leaf with
      | symbol name quoted =>
          rw [readSort]
          by_cases inside : params.contains name = true
          · rw [sortOfName, if_pos inside]
            refine ⟨some (.parameter name), rfl, fun value => ?_⟩
            simp only [SortEnvironment.meaning, valued, if_pos inside]
            rfl
          · obtain ⟨pattern?, read, meant⟩ :=
              patterned_sortOfName agrees
                (.atom (.symbol name quoted) position) inside
            refine ⟨pattern?, read, fun value => ?_⟩
            simp only [SortEnvironment.meaning, valued, if_neg inside]
            exact meant value
      | _ => exact ⟨none, rfl, fun _ => rfl⟩
  | .list [] position => ⟨none, rfl, fun _ => rfl⟩
  | .list (head :: items) position => by
      by_cases indexed : head.isSymbol "_" = true
      · obtain ⟨pattern?, same⟩ :=
          exists_indexed items (.list (head :: items) position)
        refine ⟨pattern?, ?_, fun value => ?_⟩
        · simp only [readSort, if_pos indexed]
          exact same .simple
        · simp only [SortEnvironment.meaning, if_pos indexed]
          exact same value
      · cases named : head.symbol? with
        | none =>
            refine ⟨none, ?_, fun value => ?_⟩
            · simp [readSort, indexed, readSymbol, named, expected,
                Except.toOption]
            · simp [SortEnvironment.meaning, indexed, named]
        | some name =>
            have applicable : name ≠ "_" := by
              rintro rfl
              exact indexed (decide_eq_true named)
            obtain ⟨patterns?, read, meant⟩ :=
              readSorts_patterned agrees params items
            cases patterns? with
            | none =>
                refine ⟨none, ?_, fun value => ?_⟩
                · simp [readSort, indexed, readSymbol, named,
                    Outcome.toOption_bind, read]
                · simp [SortEnvironment.meaning, indexed, named, meant value]
            | some patterns =>
                obtain ⟨pattern?, applied, appliedMeant⟩ :=
                  patterned_appliedSort agrees patterns applicable
                    (.list (head :: items) position)
                refine ⟨pattern?, ?_, fun value => ?_⟩
                · simp [readSort, indexed, readSymbol, named,
                    Outcome.toOption_bind, read, applied]
                · simp [SortEnvironment.meaning, indexed, named, meant value,
                    appliedMeant value]

/-- Sorts in a list are computed from patterns, and mean the patterns with
values. -/
theorem readSorts_patterned (agrees : environment.AgreesWith symbols)
    (params : List Text) :
    (expressions : List SExpr) → ∃ patterns? : Option (List SortPattern),
      (readSorts symbols params expressions).toOption =
        patterns?.map (List.map (fill .simple)) ∧
      ∀ value, environment.meanings (valued params value) expressions =
        patterns?.map (List.map (fill value))
  | [] => ⟨some [], rfl, fun _ => rfl⟩
  | expression :: expressions => by
      obtain ⟨pattern?, read, meant⟩ :=
        readSort_patterned agrees params expression
      obtain ⟨patterns?, othersRead, othersMeant⟩ :=
        readSorts_patterned agrees params expressions
      refine ⟨pattern?.bind fun pattern => patterns?.map (pattern :: ·), ?_,
        fun value => ?_⟩
      · rw [readSorts, Outcome.toOption_bind, read]
        simp only [Outcome.toOption_bind, othersRead]
        cases pattern? <;> cases patterns? <;> rfl
      · simp only [SortEnvironment.meanings, meant value, othersMeant value]
        cases pattern? <;> cases patterns? <;> rfl

end

/-- Outside aliases sorts are read as they are meant. -/
theorem readSort_eq_meaning (agrees : environment.AgreesWith symbols)
    (expression : SExpr) :
    (readSort symbols [] expression).toOption =
      environment.meaning (fun _ => none) expression := by
  obtain ⟨pattern?, read, meant⟩ := readSort_patterned agrees [] expression
  exact read.trans (meant .simple).symm

end ModelAudit
