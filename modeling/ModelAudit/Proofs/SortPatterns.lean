import ModelAudit.Proofs.GroundSorts

/-!
# Patterns of sorts

A pattern is a sort with parameters that are told apart from the names of sorts.
Filling in the parameters is what substitution does on names, as long as no sort
in the pattern has the name of a parameter.
-/

namespace ModelAudit

namespace SmtSort

/-- A sort of this name stands somewhere in the sort. -/
inductive Mentions (name : Text) : SmtSort → Prop
  | self : Mentions name (simple name)
  | param {constructor : Text} {params : List SmtSort} {indices : List Int}
      {sort : SmtSort} :
      sort ∈ params → Mentions name sort →
      Mentions name (.mk constructor params indices)

variable {name other : Text} {index element : SmtSort}

theorem mentions_simple : (simple other).Mentions name ↔ other = name := by
  constructor
  · rintro (_ | ⟨member, _⟩)
    · rfl
    · cases member
  · rintro rfl
    exact .self

theorem not_mentions_bitVec {width : Int} : ¬(bitVec width).Mentions name := by
  rintro (_ | ⟨member, _⟩)
  cases member

theorem mentions_array :
    (array index element).Mentions name ↔
      index.Mentions name ∨ element.Mentions name := by
  constructor
  · rintro (_ | ⟨member, inside⟩)
    simp only [List.mem_cons, List.not_mem_nil, or_false] at member
    rcases member with rfl | rfl
    · exact .inl inside
    · exact .inr inside
  · rintro (inside | inside)
    · exact .param (by simp) inside
    · exact .param (by simp) inside

end SmtSort

/-- A sort with parameters. -/
inductive SortPattern
  | parameter (name : Text)
  | named (name : Text)
  | bitVec (width : Int)
  | array (index element : SortPattern)

namespace SortPattern

/-- The sort that a pattern becomes with these values of its parameters. -/
def fill (value : Text → SmtSort) : SortPattern → SmtSort
  | parameter name => value name
  | named name => .simple name
  | bitVec width => .bitVec width
  | array index element => .array (index.fill value) (element.fill value)

/-- Patterns in the place of parameters. -/
def bind (value : Text → SortPattern) : SortPattern → SortPattern
  | parameter name => value name
  | named name => named name
  | bitVec width => bitVec width
  | array index element => array (index.bind value) (element.bind value)

/-- The names of sorts in the pattern, which are no parameters. -/
def names : SortPattern → List Text
  | parameter _ | bitVec _ => []
  | named name => [name]
  | array index element => index.names ++ element.names

variable {pattern : SortPattern} {name : Text}

theorem fill_bind (pattern : SortPattern) (inner : Text → SortPattern)
    (value : Text → SmtSort) :
    (pattern.bind inner).fill value = pattern.fill fun name =>
      (inner name).fill value := by
  induction pattern with
  | parameter _ | named _ | bitVec _ => rfl
  | array _ _ indexHypothesis elementHypothesis =>
      rw [bind, fill, fill, indexHypothesis, elementHypothesis]

/-- The sort in place of a name, if the table has one. -/
def valueIn (table : Table SmtSort) (name : Text) : SmtSort :=
  (table.find? name).getD (.simple name)

/-- Substitution in a sort that was written with the names of its parameters
fills the pattern, if it meets the parameters only. -/
theorem substitute_fill {table : Table SmtSort}
    (apart : ∀ name ∈ pattern.names, table.find? name = none) :
    (pattern.fill .simple).substitute table = pattern.fill (valueIn table) := by
  induction pattern with
  | parameter _ => rfl
  | named name =>
      have absent := apart name List.mem_cons_self
      change (table.find? name).getD _ = _
      rw [absent]
      rfl
  | bitVec _ => rfl
  | array index element indexHypothesis elementHypothesis =>
      have inIndex := indexHypothesis fun name member =>
        apart name (List.mem_append_left _ member)
      have inElement := elementHypothesis fun name member =>
        apart name (List.mem_append_right _ member)
      change SmtSort.mk _ [_, _] _ = _
      rw [inIndex, inElement]
      rfl

/-- A pattern with values in place of its parameters mentions the names of the
pattern. -/
theorem mentions_fill (value : Text → SmtSort) (member : name ∈ pattern.names) :
    (pattern.fill value).Mentions name := by
  induction pattern with
  | parameter _ | bitVec _ => cases member
  | named other =>
      obtain rfl := List.mem_singleton.mp member
      exact .self
  | array index element indexHypothesis elementHypothesis =>
      rcases List.mem_append.mp member with inIndex | inElement
      · exact SmtSort.mentions_array.mpr (.inl (indexHypothesis inIndex))
      · exact SmtSort.mentions_array.mpr (.inr (elementHypothesis inElement))

/-- Substitution replaces all sorts of a name, those that are no parameters as
well. -/
theorem not_mentions_substitute {table : Table SmtSort}
    (replaced : ∃ value, table.find? name = some value)
    (values : ∀ other value, table.find? other = some value →
      ¬value.Mentions name) :
    ¬((pattern.fill .simple).substitute table).Mentions name := by
  have simple (other : Text) :
      ¬((SmtSort.simple other).substitute table).Mentions name := by
    change ¬((table.find? other).getD (.simple other)).Mentions name
    cases found : table.find? other with
    | some value => exact values other value found
    | none =>
        intro mentions
        obtain rfl := SmtSort.mentions_simple.mp mentions
        obtain ⟨value, present⟩ := replaced
        rw [found] at present
        cases present
  induction pattern with
  | parameter other => exact simple other
  | named other => exact simple other
  | bitVec _ => exact SmtSort.not_mentions_bitVec
  | array index element indexHypothesis elementHypothesis =>
      intro mentions
      rcases SmtSort.mentions_array.mp mentions with inside | inside
      · exact indexHypothesis inside
      · exact elementHypothesis inside

end SortPattern

end ModelAudit
