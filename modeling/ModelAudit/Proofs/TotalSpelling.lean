import ModelAudit.Proofs.GroundTerms
import ModelAudit.Proofs.HolParts

/-!
# Which applications can be spelled

Overrides of spellings only disable operators or write them as parenthesised
operators. So whatever overrides are applied to the default spellings, an
operator that is not disabled can be spelled in every application that its
signature admits.
-/

namespace ModelAudit

open Translation

namespace OperatorTable

/-- The tables that come from the default one by overrides that are applied
without fault. -/
inductive Configured : OperatorTable → Prop
  | default : Configured .default
  | overridden {table later : OperatorTable} {overrides : Json} :
      Configured table → table.applyOverrides overrides = (none, later) →
      Configured later

/-- What overrides can make of an entry. -/
def Ordinary (table : OperatorTable) : Prop :=
  ∀ operator, table operator = OperatorTable.default operator ∨
    table operator = .disabled ∨
    ∃ override, table operator = .overridden override

variable {table later : OperatorTable}

theorem Ordinary.set (ordinary : table.Ordinary) {operator : Operator}
    {entry : SpellingEntry}
    (read : entry = .disabled ∨ ∃ override, entry = .overridden override) :
    (table.set operator entry).Ordinary := by
  intro other
  rw [OperatorTable.set]
  split
  · exact .inr read
  · exact ordinary other

theorem readEntry_spec {json : Json} {entry : SpellingEntry}
    (read : readEntry json = .ok entry) :
    entry = .disabled ∨ ∃ override, entry = .overridden override := by
  obtain ⟨fields, _, read⟩ := Outcome.bind_eq_ok.mp read
  dsimp only at read
  split at read
  · exact .inl (Except.ok.inj read).symm
  · exact .inr ⟨_, (Except.ok.inj read).symm⟩

theorem Ordinary.applyEntries (ordinary : table.Ordinary)
    (entries : List (Text × Json)) :
    (table.applyEntries entries).snd.Ordinary := by
  induction entries generalizing table with
  | nil => exact ordinary
  | cons entry entries inductionHypothesis =>
      obtain ⟨name, json⟩ := entry
      rw [OperatorTable.applyEntries]
      split
      · exact inductionHypothesis ordinary
      · split
        · next entry read =>
            exact inductionHypothesis (ordinary.set (readEntry_spec read))
        · exact ordinary

theorem Ordinary.applyTheories (ordinary : table.Ordinary)
    (theories : List (Text × Json)) :
    (table.applyTheories theories).snd.Ordinary := by
  induction theories generalizing table with
  | nil => exact ordinary
  | cons theory theories inductionHypothesis =>
      obtain ⟨name, json⟩ := theory
      rw [OperatorTable.applyTheories]
      split
      · exact ordinary
      · next entries _ =>
        have applied := ordinary.applyEntries entries
        split
        · next table same =>
          rw [same] at applied
          exact inductionHypothesis applied
        · next fault table same =>
          rw [same] at applied
          exact applied

/-- Overrides leave ordinary entries. -/
theorem Ordinary.applyOverrides (ordinary : table.Ordinary) (overrides : Json) :
    (table.applyOverrides overrides).snd.Ordinary := by
  rw [OperatorTable.applyOverrides]
  split
  · exact ordinary
  · dsimp only
    split
    · split
      · exact ordinary
      · exact ordinary.applyTheories _
    · exact ordinary

theorem Configured.ordinary (configured : table.Configured) :
    table.Ordinary := by
  induction configured with
  | default => exact fun operator => .inl rfl
  | @overridden table later overrides _ applied inductionHypothesis =>
      have ordinary := inductionHypothesis.applyOverrides overrides
      rwa [applied] at ordinary

/-- An operator that is not disabled is spelled by default or by an override. -/
theorem Ordinary.spelling (ordinary : table.Ordinary) {operator : Operator}
    {spelling : Spelling} (found : (table operator).spelling? = some spelling) :
    operator.defaultSpelling? = some spelling ∨
      ∃ override : Override, spelling = override.spelling := by
  rcases ordinary operator with same | same | ⟨override, same⟩
  · rw [same, spelling?_default] at found
    exact .inl found
  · rw [same] at found
    cases found
  · rw [same] at found
    exact .inr ⟨override, (Option.some.inj found).symm⟩

end OperatorTable

/-! ## Numbers of arguments -/

namespace SignatureRule

/-- The number of arguments that a rule asks for at least. -/
def leastArguments : SignatureRule → Nat
  | booleans arity | numbers arity _ _ | bitVectors arity _ | strings arity _ =>
    arity.least
  | comparison | concatenation | select => 2
  | conditional | store => 3
  | conversion _ _ | extraction | extension => 1
  | fixed params _ => params.length

/-- A rule that gives a sort has got as many arguments as it asks for. -/
theorem le_length_of_resultSort {rule : SignatureRule} {operator : Operator}
    {arguments : List SmtSort} {indices : List Int} {sort : SmtSort}
    (fits : rule.resultSort operator arguments indices = .ok sort) :
    rule.leastArguments ≤ arguments.length := by
  cases gives_of_resultSort fits with
  | booleans count _ | numbers count _ _ _ | bitVectors count _ _ _
  | strings count _ =>
      exact (Arity.allows_iff.mp count).1
  | comparison count _ => exact count
  | conditional | store | concatenation | select | conversion | fixed
  | extraction | extension =>
      exact le_rfl

theorem two_indices_of_extraction {operator : Operator}
    {arguments : List SmtSort} {indices : List Int} {sort : SmtSort}
    (fits : extraction.resultSort operator arguments indices = .ok sort) :
    indices.length = 2 := by
  cases gives_of_resultSort fits with
  | extraction => rfl

end SignatureRule

namespace Operator

theorem leastArguments_pos {operator : Operator} {rule : SignatureRule}
    (known : operator.rule? = some rule) : 0 < rule.leastArguments := by
  cases operator <;> cases known <;> decide

/-- The signature of an operator asks for as many arguments as its template
shows. -/
theorem leastArguments_of_templated {operator : Operator} {rule : SignatureRule}
    {spelling : Spelling} {template : Template}
    (known : operator.rule? = some rule)
    (spelled : operator.defaultSpelling? = some spelling)
    (templated : spelling.fixity = .templated template) :
    rule.leastArguments = template.arity := by
  cases operator <;> cases known <;> cases spelled <;> cases templated <;> rfl

theorem single_of_defaultSpelling {operator : Operator} {spelling : Spelling}
    {template : Template} (spelled : operator.defaultSpelling? = some spelling)
    (single : spelling.single = some template) : template = .negative := by
  cases operator <;> cases spelled <;> cases single
  rfl

end Operator

/-! ## Applications -/

/-- What the spellings of an operator may ask of an application with this number
of arguments. -/
structure Operator.Admits (operator : Operator) (indices : List Nat)
    (count : Nat) (sort : SmtSort) : Prop where
  nonempty : 0 < count
  arguments : ∀ spelling template, operator.defaultSpelling? = some spelling →
    spelling.fixity = .templated template → template.arity ≤ count
  slice : operator = .extraction → indices.length = 2
  array : operator = .constantArray →
      ∃ index element, sort = .array index element

namespace Operator

variable {operator : Operator} {indices : List Nat} {sort : SmtSort}

/-- The rule of an operator demands what its spellings ask for. -/
theorem admits_of_rule {rule : SignatureRule} {sorts : List SmtSort}
    (known : operator.rule? = some rule)
    (fits : rule.resultSort operator sorts (indices.map Int.ofNat) = .ok sort) :
    operator.Admits indices sorts.length sort where
  nonempty := (leastArguments_pos known).trans_le
    (SignatureRule.le_length_of_resultSort fits)
  arguments _ _ spelled templated :=
    leastArguments_of_templated known spelled templated ▸
      SignatureRule.le_length_of_resultSort fits
  slice := by
    rintro rfl
    obtain rfl := Option.some.inj known
    simpa using SignatureRule.two_indices_of_extraction fits
  array := by
    rintro rfl
    cases known

theorem admits_constantArray (index element : SmtSort) :
    constantArray.Admits indices 1 (.array index element) where
  nonempty := by decide
  arguments := by
    rintro _ _ ⟨⟩ ⟨⟩
    decide
  slice same := nomatch same
  array _ := ⟨index, element, rfl⟩

theorem admits_functionArray : functionArray.Admits indices 1 sort where
  nonempty := by decide
  arguments := by
    rintro _ _ ⟨⟩ ⟨⟩
    decide
  slice same := nomatch same
  array same := nomatch same

/-- An application that has a sort is one that its operator admits. -/
theorem admits_of_hasSort {symbols : SymbolTable} {admitted : Literal → Prop}
    {scope : Scope} {arguments : List Term} {result : SmtSort}
    (typed : (Term.application
        (.operator operator) indices arguments sort).HasSort symbols
      admitted scope result) : operator.Admits indices arguments.length
        sort := by
  cases typed with
  | operation known fits lengths _ => exact lengths ▸ admits_of_rule known fits
  | constantArray _ _ => exact admits_constantArray _ _

/-- Templates that show an index or an index type belong to one operator
each. -/
theorem eq_of_templated {spelling : Spelling} {template : Template}
    (spelled : operator.defaultSpelling? = some spelling)
    (templated : spelling.fixity = .templated template) :
    (template = .wordSlice → operator = .extraction) ∧
      (template = .constantFunction → operator = .constantArray) := by
  cases operator <;> cases spelled <;> cases templated <;> simp

end Operator

namespace Translation

/-- A template with enough arguments and indices can be filled. -/
theorem exists_fill? {template : Template} {fields : TemplateFields}
    (enough : template.arity ≤ fields.arguments.length)
    (slice : template = .wordSlice → fields.indices.length = 2)
    (array : template = .constantFunction → fields.indexType.isSome) :
    ∃ term, template.fill? fields = some term := by
  obtain ⟨arguments, indices, type, indexType⟩ := fields
  cases template with
  | conditional | store =>
      rcases arguments with _ | ⟨first, _ | ⟨second, _ | ⟨third, others⟩⟩⟩
      · simp [Template.arity] at enough
      · simp [Template.arity] at enough
      · simp [Template.arity] at enough
      · exact ⟨_, rfl⟩
  | wordConcatenation | select =>
      rcases arguments with _ | ⟨first, _ | ⟨second, others⟩⟩
      · simp [Template.arity] at enough
      · simp [Template.arity] at enough
      · exact ⟨_, rfl⟩
  | wordSlice =>
      obtain ⟨argument, others, rfl⟩ := List.exists_cons_of_length_pos enough
      obtain ⟨high, low, rfl⟩ := List.length_eq_two.mp (slice rfl)
      exact ⟨_, rfl⟩
  | constantFunction =>
      obtain ⟨argument, others, rfl⟩ := List.exists_cons_of_length_pos enough
      obtain ⟨known, rfl⟩ := Option.isSome_iff_exists.mp (array rfl)
      exact ⟨_, rfl⟩
  | negative | isIntegral | zeroExtension | signExtension | itself
  | stringLength =>
      obtain ⟨argument, others, rfl⟩ := List.exists_cons_of_length_pos enough
      exact ⟨_, rfl⟩

/-- A plain application to at least one argument can be written unless the form
for one argument is a template other than the opposite. -/
theorem exists_plain? {spelling : Spelling} {arguments : List HolTerm}
    (nonempty : 0 < arguments.length)
    (single : ∀ template, spelling.single = some template →
      template = .negative) :
    ∃ term, plain? spelling arguments = some term := by
  match arguments with
  | [argument] =>
      rw [plain?]
      split
      · exact ⟨_, rfl⟩
      · next template found =>
        rw [single template found]
        exact ⟨_, rfl⟩
  | first :: second :: others => exact ⟨_, rfl⟩

theorem exists_indexType? {vocabulary : Vocabulary} {sort : SmtSort}
    (ground : sort.Ground vocabulary.userSorts) :
    ∃ indexType, indexType? vocabulary sort = .ok indexType ∧
      ∀ index element, sort = .array index element → indexType.isSome := by
  obtain ⟨indexType, found⟩ := indexType?_ok ground
  refine ⟨indexType, found, ?_⟩
  rintro index element rfl
  obtain ⟨type, _, same⟩ := Outcome.bind_eq_ok.mp found
  exact Except.ok.inj same ▸ rfl

/-- What is not disabled can be spelled wherever the signature admits it. -/
theorem exists_spell {vocabulary : Vocabulary}
    (ordinary : vocabulary.operators.Ordinary) {operator : Operator}
    {spelling : Spelling} {indices : List Nat} {arguments : List HolTerm}
    {sort : SmtSort}
    (found : (vocabulary.operators operator).spelling? = some spelling)
    (admits : operator.Admits indices arguments.length sort)
    (ground : sort.Ground vocabulary.userSorts) :
    ∃ translated, spell vocabulary operator indices arguments sort =
      .ok translated := by
  rw [spell, found]
  dsimp only
  rcases ordinary.spelling found with known | ⟨override, rfl⟩
  · split
    · next template templated =>
      obtain ⟨type, typeShape⟩ := ground.toHol_ok
      obtain ⟨indexType, indexShape, array⟩ := exists_indexType? ground
      obtain ⟨slice, constant⟩ := Operator.eq_of_templated known templated
      have filled : ∃ translated, template.fill?
          ⟨arguments, indices.map Text.decimal, type, indexType⟩ =
            some translated := by
        refine exists_fill? (admits.arguments spelling template known templated)
          (fun same => ?_) fun same => ?_
        · simpa using admits.slice (slice same)
        · obtain ⟨index, element, shape⟩ := admits.array (constant same)
          exact array index element shape
      obtain ⟨translated, shape⟩ := filled
      exact ⟨translated, by rw [typeShape, indexShape]; simp [shape, spelled]⟩
    · obtain ⟨translated, shape⟩ :=
        exists_plain? admits.nonempty fun template single =>
        Operator.single_of_defaultSpelling known single
      exact ⟨translated, by rw [shape]; rfl⟩
  · obtain ⟨translated, shape⟩ :
        ∃ term, plain? override.spelling arguments = some term :=
      exists_plain? admits.nonempty fun template single => by cases single
    exact ⟨translated, by rw [shape]; rfl⟩

end Translation

end ModelAudit
