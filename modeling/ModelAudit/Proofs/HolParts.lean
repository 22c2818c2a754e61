import Mathlib.Logic.Relation
import ModelAudit.Proofs.HolVariables
import ModelAudit.Proofs.OperatorMeaning

/-!
# Parts of HOL terms

An applied operator shows all its arguments. A template is filled with a fixed
number of arguments, and the signature of its operator allows for no more.
-/

namespace ModelAudit

open Relation

namespace HolTerm

def components : HolTerm → List HolTerm
  | name _ | constant _ | numeral _ _ | characters _ | operatorSection _ => []
  | apply function arguments => function :: arguments
  | operation _ left right => [left, right]
  | conjunction parts => parts
  | conditional test first second => [test, first, second]
  | update function argument value => [function, argument, value]
  | constantFunction _ value => [value]
  | typed _ arguments _ => arguments
  | isIntegral number => [number]
  | letIn equations body => equations.map Prod.snd ++ [body]
  | bound _ _ body => [body]

/-- The part stands somewhere in the whole. -/
def PartOf (part whole : HolTerm) : Prop :=
  ReflTransGen (fun inner outer => inner ∈ outer.components) part whole

variable {part whole : HolTerm}

theorem PartOf.of_mem (member : part ∈ whole.components) : part.PartOf whole :=
  .single member

theorem PartOf.trans {middle : HolTerm} (inner : part.PartOf middle)
    (outer : middle.PartOf whole) : part.PartOf whole :=
  ReflTransGen.trans inner outer

theorem partOf_call {function : Text} {arguments : List HolTerm}
    (member : part ∈ arguments) :
    part.PartOf (.call function arguments) :=
  .of_mem (List.mem_cons_of_mem _ member)

theorem partOf_conjoin {parts : List HolTerm} (member : part ∈ parts) :
    part.PartOf (.conjoin parts) := by
  match parts with
  | [] => cases member
  | [only] =>
      obtain rfl := List.mem_singleton.mp member
      exact .refl
  | first :: second :: others => exact .of_mem member

end HolTerm

/-! ## Numbers of arguments -/

namespace SignatureRule

/-- The number of arguments that a rule allows at most. -/
def mostArguments : SignatureRule → Option Nat
  | booleans arity | numbers arity _ _ | bitVectors arity _ | strings arity _ =>
    arity.most
  | comparison => none
  | conditional | store => some 3
  | concatenation | select => some 2
  | conversion _ _ | extraction | extension => some 1
  | fixed params _ => some params.length

/-- A rule that gives a sort has not been given more arguments than it
allows. -/
theorem length_le_of_resultSort {rule : SignatureRule} {operator : Operator}
    {arguments : List SmtSort} {indices : List Int} {sort : SmtSort}
    {most : Nat}
    (fits : rule.resultSort operator arguments indices = .ok sort)
    (limit : rule.mostArguments = some most) : arguments.length ≤ most := by
  cases gives_of_resultSort fits with
  | booleans count _ | numbers count _ _ _ | bitVectors count _ _ _
  | strings count _ =>
      exact (Arity.allows_iff.mp count).2 most limit
  | comparison => cases limit
  | conditional | store | concatenation | select | conversion | fixed
  | extraction | extension =>
      exact (Option.some.inj limit).le

end SignatureRule

/-! ## Spelled arguments -/

/-- The number of arguments that a template shows. -/
def Template.arity : Template → Nat
  | conditional | store => 3
  | wordConcatenation | select => 2
  | negative | isIntegral | wordSlice | zeroExtension | signExtension
  | constantFunction
  | itself | stringLength => 1

/-- The signature of an operator allows for no more arguments than its template
shows. -/
theorem Operator.mostArguments_of_templated {operator : Operator}
    {rule : SignatureRule} {spelling : Spelling} {template : Template}
    (known : operator.rule? = some rule)
    (spelled : operator.defaultSpelling? = some spelling)
    (templated : spelling.fixity = .templated template) :
    rule.mostArguments = some template.arity := by
  cases operator <;> cases known <;> cases spelled <;> cases templated <;> rfl

namespace Translation

open HolTerm

variable {fixity : Fixity} {argument first left right : HolTerm}
  {others : List HolTerm}

theorem mem_components_binary :
    left ∈ (binary fixity left right).components ∧
      right ∈ (binary fixity left right).components := by
  cases fixity <;> simp [binary, call, components]

theorem left_partOf_binary : left.PartOf (binary fixity left right) :=
  .of_mem mem_components_binary.1

theorem right_partOf_binary : right.PartOf (binary fixity left right) :=
  .of_mem mem_components_binary.2

theorem partOf_unary (spelling : Spelling) :
    argument.PartOf (unary spelling argument) := by
  unfold unary
  split
  · exact .refl
  · exact partOf_call (List.mem_singleton_self argument)
  · exact partOf_call (List.mem_singleton_self argument)
  · exact partOf_call (List.mem_singleton_self argument)

/-- Every argument stands somewhere in applications that are nested to the
left. -/
theorem partOf_foldl (member : argument ∈ first :: others) :
    argument.PartOf (others.foldl (binary fixity) first) := by
  induction others generalizing argument first with
  | nil =>
      obtain rfl := List.mem_singleton.mp member
      exact .refl
  | cons next others inductionHypothesis =>
      have combined : (binary fixity first next).PartOf
          (others.foldl (binary fixity) (binary fixity first next)) :=
        inductionHypothesis List.mem_cons_self
      rcases List.mem_cons.mp member with rfl | later
      · exact left_partOf_binary.trans combined
      · rcases List.mem_cons.mp later with rfl | rest
        · exact right_partOf_binary.trans combined
        · exact inductionHypothesis (List.mem_cons_of_mem _ rest)

theorem partOf_foldRight (member : argument ∈ first :: others) :
    argument.PartOf (foldRight fixity first others) := by
  induction others generalizing first with
  | nil =>
      obtain rfl := List.mem_singleton.mp member
      exact .refl
  | cons next others inductionHypothesis =>
      rcases List.mem_cons.mp member with rfl | later
      · exact left_partOf_binary
      · exact (inductionHypothesis later).trans right_partOf_binary

/-- One of two elements or more is in some pair. -/
theorem exists_mem_pairs {Element : Type} {first second element : Element}
    {others : List Element} (member : element ∈ first :: second :: others) :
    ∃ couple ∈ pairs (first :: second :: others), couple.fst = element ∨
      couple.snd = element := by
  have paired (other : Element) (inside : other ∈ second :: others) :
      (first, other) ∈ pairs (first :: second :: others) :=
    List.mem_append_left _ (List.mem_map_of_mem inside)
  rcases List.mem_cons.mp member with rfl | later
  · exact ⟨_, paired second List.mem_cons_self, .inl rfl⟩
  · exact ⟨_, paired element later, .inr rfl⟩

/-- One of two elements or more is the neighbour of another one. -/
theorem exists_mem_neighbours {Element : Type} {first second element : Element}
    {others : List Element} (member : element ∈ first :: second :: others) :
    ∃ couple ∈ neighbours (first :: second :: others),
      couple.fst = element ∨ couple.snd = element := by
  induction others generalizing first second with
  | nil =>
      refine ⟨(first, second), List.mem_singleton_self _, ?_⟩
      simpa [eq_comm] using member
  | cons third others inductionHypothesis =>
      rcases List.mem_cons.mp member with rfl | later
      · exact ⟨(element, second), List.mem_cons_self, .inl rfl⟩
      · obtain ⟨couple, inside, shape⟩ := inductionHypothesis later
        exact ⟨couple, List.mem_cons_of_mem _ inside, shape⟩

/-- Every argument stands in the application, whatever the scheme that it is
written in. -/
theorem partOf_several (spelling : Spelling) {second : HolTerm}
    (member : argument ∈ first :: second :: others) :
    argument.PartOf (several spelling first (second :: others)) := by
  have joined {couples : List (HolTerm × HolTerm)} {image : HolTerm × HolTerm →
      HolTerm}
      (same : ∀ couple,
        image couple = binary spelling.fixity couple.fst couple.snd)
      (paired : ∃ couple ∈ couples, couple.fst = argument ∨
        couple.snd = argument) :
      argument.PartOf (.conjoin (couples.map image)) := by
    obtain ⟨couple, inside, shape⟩ := paired
    have whole : (binary spelling.fixity couple.fst couple.snd).PartOf
        (.conjoin (couples.map image)) :=
      partOf_conjoin (same couple ▸ List.mem_map_of_mem inside)
    rcases shape with rfl | rfl
    · exact left_partOf_binary.trans whole
    · exact right_partOf_binary.trans whole
  unfold several
  dsimp only
  split
  · exact joined (fun _ => rfl) (exists_mem_pairs member)
  · split
    · exact joined (fun _ => rfl) (exists_mem_neighbours member)
    · split
      · exact partOf_foldRight member
      · exact partOf_call member
      · exact .of_mem (List.mem_cons_of_mem _ member)
      · exact partOf_foldl member

private theorem eq_nil_of_length_le {Element : Type} (shown : List Element)
    {others : List Element} (count : (shown ++ others).length ≤ shown.length) :
    others = [] := by
  rw [List.length_append] at count
  exact List.length_eq_zero_iff.mp (by omega)

/-- A template with no more arguments than it shows. -/
theorem partOf_fill? {template : Template} {fields : TemplateFields}
    {whole : HolTerm} (count : fields.arguments.length ≤ template.arity)
    (member : argument ∈ fields.arguments)
    (filled : template.fill? fields = some whole) :
    argument.PartOf whole := by
  unfold Template.fill? at filled
  split at filled
  · next test first second others arguments =>
    rw [arguments] at count member
    obtain rfl := eq_nil_of_length_le [test, first, second] count
    obtain rfl := Option.some.inj filled
    exact .of_mem member
  · next only others arguments =>
    rw [arguments] at count member
    obtain rfl := eq_nil_of_length_le [only] count
    obtain rfl := Option.some.inj filled
    exact partOf_call member
  · next only others arguments =>
    rw [arguments] at count member
    obtain rfl := eq_nil_of_length_le [only] count
    obtain rfl := Option.some.inj filled
    exact .of_mem member
  · next left right others arguments =>
    rw [arguments] at count member
    obtain rfl := eq_nil_of_length_le [left, right] count
    obtain rfl := Option.some.inj filled
    exact .of_mem member
  · next only others arguments =>
    rw [arguments] at count member
    obtain rfl := eq_nil_of_length_le [only] count
    split at filled
    · next low _ _ =>
      obtain rfl := Option.some.inj filled
      have dropped : argument.PartOf (.call "drop_bit" [.constant low, only]) :=
        partOf_call (List.mem_cons_of_mem _ member)
      exact dropped.trans (.of_mem (List.mem_singleton_self _))
    · cases filled
  · next only others arguments =>
    rw [arguments] at count member
    obtain rfl := eq_nil_of_length_le [only] count
    obtain rfl := Option.some.inj filled
    exact .of_mem member
  · next only others arguments =>
    rw [arguments] at count member
    obtain rfl := eq_nil_of_length_le [only] count
    obtain rfl := Option.some.inj filled
    exact .of_mem member
  · next array index others arguments =>
    rw [arguments] at count member
    obtain rfl := eq_nil_of_length_le [array, index] count
    obtain rfl := Option.some.inj filled
    exact .of_mem member
  · next array index value others arguments =>
    rw [arguments] at count member
    obtain rfl := eq_nil_of_length_le [array, index, value] count
    obtain rfl := Option.some.inj filled
    exact .of_mem member
  · next only others arguments =>
    rw [arguments] at count member
    obtain rfl := eq_nil_of_length_le [only] count
    obtain ⟨indexType, _, rfl⟩ := Option.map_eq_some_iff.mp filled
    exact .of_mem member
  · next only others arguments =>
    rw [arguments] at count member
    obtain rfl := eq_nil_of_length_le [only] count
    obtain rfl := Option.some.inj filled
    obtain rfl := List.mem_singleton.mp member
    exact .refl
  · next only others arguments =>
    rw [arguments] at count member
    obtain rfl := eq_nil_of_length_le [only] count
    obtain rfl := Option.some.inj filled
    exact (partOf_call member).trans (partOf_call (List.mem_singleton_self _))
  · cases filled

/-- Every argument stands in a plain application or template. -/
theorem partOf_plain? {spelling : Spelling} {arguments : List HolTerm}
    {whole : HolTerm} (member : argument ∈ arguments)
    (shape : plain? spelling arguments = some whole) :
    argument.PartOf whole := by
  match arguments with
  | [] => cases member
  | [only] =>
      rw [plain?] at shape
      split at shape
      · obtain rfl := Option.some.inj shape
        obtain rfl := List.mem_singleton.mp member
        exact partOf_unary spelling
      · next template _ =>
        refine partOf_fill? ?_ member shape
        cases template <;> simp [Template.arity]
  | first :: second :: others =>
      obtain rfl := Option.some.inj shape
      exact partOf_several spelling member

/-- An applied operator shows all its arguments if they are not more than its
template shows. -/
theorem partOf_spell {vocabulary : Vocabulary} {operator : Operator}
    {indices : List Nat} {arguments : List HolTerm} {sort : SmtSort}
    {whole : HolTerm}
    (count : ∀ spelling template, (vocabulary.operators operator).spelling? =
        some spelling →
      spelling.fixity = .templated template → arguments.length ≤ template.arity)
    (member : argument ∈ arguments)
    (shape : spell vocabulary operator indices arguments sort = .ok whole) :
    argument.PartOf whole := by
  unfold spell at shape
  split at shape
  · cases shape
  · next spelling known =>
    split at shape
    · next template fixity =>
      obtain ⟨type, _, shape⟩ := Outcome.bind_eq_ok.mp shape
      obtain ⟨indexType, _, shape⟩ := Outcome.bind_eq_ok.mp shape
      exact partOf_fill? (count spelling template known fixity) member
        (eq_some_of_spelled shape)
    · exact partOf_plain? member (eq_some_of_spelled shape)

end Translation

end ModelAudit
