import Mathlib.Data.List.FinRange
import ModelAudit.Proofs.SpelledOperators
import ModelAudit.Proofs.TermInduction
import ModelAudit.Proofs.TermTexts

/-!
# Applications to three and more arguments

SMT-LIB explains an application to more than two arguments as an abbreviation.
The operator holds of all pairs of arguments, or of all neighbours, or it nests
to the right or to the left. The translation of the application is that of what
it abbreviates, whatever the operator's spelling.
-/

namespace ModelAudit

namespace Translation

/-! ## Couples of arguments -/

section Couples

variable {Element Image Result Fault : Type}

/-- The couples of elements whose places are related, ordered by the place of
the first element and then by the place of the second one. -/
def couples (related : Nat → Nat → Bool) (elements : List Element) :
    List (Element × Element) :=
  let places := List.finRange elements.length
  places.flatMap fun left : Fin _ =>
    (places.filter fun right : Fin _ => related left right).map fun right =>
      (elements.get left, elements.get right)

/-- The couples of the first element come before those among the others. -/
theorem couples_cons {related : Nat → Nat → Bool}
    (forward : ∀ left, related left 0 = false) (first : Element)
    (others : List Element) :
    couples related (first :: others) =
      ((List.finRange others.length).filter fun right : Fin _ => related 0
        (right + 1)).map
          (fun right => (first, others.get right)) ++
        couples (fun left right => related (left + 1) (right + 1)) others := by
  simp [couples, List.finRange_succ, forward, List.filter_map, List.flatMap_map,
    Function.comp_def]

/-- The function `pairs` relates each element to every later one. -/
theorem pairs_eq_couples (elements : List Element) :
    pairs elements = couples (fun left right => left < right) elements := by
  induction elements with
  | nil => rfl
  | cons first others inductionHypothesis =>
      have later : (fun left right : Nat => decide (left + 1 < right + 1)) =
          fun left right => decide (left < right) := by
        simp
      have all : ∀ right ∈ List.finRange others.length,
          decide (0 < right.val + 1) = true := by
        simp
      have inOrder :
          (List.finRange others.length).map
            (fun right => (first, others.get right)) =
          others.map fun other => (first, other) := by
        conv_rhs => rw [← List.map_get_finRange others, List.map_map]
        rfl
      rw [couples_cons (by simp), List.filter_eq_self.mpr all, inOrder, later,
        ← inductionHypothesis, pairs]

/-- The function `neighbours` relates each element to the next one. -/
theorem neighbours_eq_couples (elements : List Element) :
    neighbours elements =
      couples (fun left right => right = left + 1) elements := by
  induction elements with
  | nil => rfl
  | cons first others inductionHypothesis =>
      rw [couples_cons (by simp)]
      have later : (fun left right : Nat => decide (right + 1 = left + 1 + 1)) =
          fun left right => decide (right = left + 1) := by
        simp
      rw [later, ← inductionHypothesis]
      cases others with
      | nil => rfl
      | cons second others =>
          simp [List.finRange_succ, neighbours, List.filter_eq_nil_iff]

/-- What couples of images combine to is computed for the couples one after the
other. -/
theorem mapM_neighbours (image : Element → Except Fault Image)
    (combine : Image → Image → Result) (first second : Element)
    (others : List Element) :
    (neighbours (first :: second :: others)).mapM (fun (left, right) => do
        return combine (← image left) (← image right)) = (do
      let images ← (first :: second :: others).mapM image
      return (neighbours images).map fun (left, right) =>
        combine left right) := by
  induction others generalizing first second with
  | nil =>
      cases firstImage : image first <;> cases secondImage : image second <;>
        simp [neighbours, firstImage, secondImage]
  | cons third others inductionHypothesis =>
      have shape : neighbours (first :: second :: third :: others) =
          (first, second) :: neighbours (second :: third :: others) := rfl
      rw [shape, List.mapM_cons, inductionHypothesis]
      cases firstImage : image first with
      | error fault => simp [firstImage]
      | ok firstResult =>
        cases secondImage : image second with
        | error fault => simp [firstImage, secondImage]
        | ok secondResult =>
          cases thirdImage : image third with
          | error fault => simp [firstImage, secondImage, thirdImage]
          | ok thirdResult =>
            cases rest : others.mapM image <;>
              simp [firstImage, secondImage, thirdImage, rest, neighbours]

theorem mapM_pairs_of_ok {image : Element → Except Fault Image}
    (combine : Image → Image → Result) {elements : List Element}
    {images : List Image}
    (computed : elements.mapM image = .ok images) :
    (pairs elements).mapM (fun (left, right) => do
        return combine (← image left) (← image right)) =
      .ok ((pairs images).map fun (left, right) => combine left right) := by
  rw [Outcome.mapM_eq_ok] at computed ⊢
  induction computed with
  | nil => exact .nil
  | cons here later inductionHypothesis =>
      rw [pairs, pairs, List.map_append]
      refine List.rel_append ?_ inductionHypothesis
      rw [List.forall₂_map_left_iff, List.map_map, List.forall₂_map_right_iff]
      exact later.imp fun _ _ there => by simp [here, there]

theorem mapM_map_results (image : Element → Except Fault Image)
    (change : Image → Result) (elements : List Element) :
    elements.mapM (fun element => do return change (← image element)) =
      (do return (← elements.mapM image).map change) := by
  induction elements with
  | nil => rfl
  | cons first others inductionHypothesis =>
      rw [List.mapM_cons, List.mapM_cons, inductionHypothesis]
      cases here : image first <;> cases later : others.mapM image <;> rfl

/-- What pairs of images combine to is computed for the pairs one after the
other. -/
theorem mapM_pairs (image : Element → Except Fault Image)
    (combine : Image → Image → Result) (first second : Element)
    (others : List Element) :
    (pairs (first :: second :: others)).mapM (fun (left, right) => do
        return combine (← image left) (← image right)) = (do
      let images ← (first :: second :: others).mapM image
      return (pairs images).map fun (left, right) => combine left right) := by
  cases computed : (first :: second :: others).mapM image with
  | ok images => exact mapM_pairs_of_ok combine computed
  | error fault =>
      rw [List.mapM_cons] at computed
      cases here : image first with
      | error other =>
          rw [here] at computed
          cases computed
          simp [pairs, here]
      | ok result =>
          rw [here, Outcome.ok_bind, Outcome.bind_eq_error] at computed
          rcases computed with failed | ⟨_, _, done'⟩
          · rw [pairs, List.mapM_append, List.mapM_map]
            simp only [Function.comp_def, here, Outcome.ok_bind]
            rw [mapM_map_results image (combine result), failed]
            rfl
          · cases done'

end Couples

/-! ## Translations of applications -/

section Applied

variable {vocabulary : Vocabulary} {scope : HolScope} {operator : Operator}
  {spelling : Spelling} {indices partIndices : List Nat}
  {sort partSort : SmtSort}

/-- A spelling that unrolls an application to several arguments puts two of them
together as they are. -/
theorem several_couple
    (unrolls : spelling.pairwise = true ∨ spelling.chainable = true ∨
      spelling.associativity.isSome = true) (first second : HolTerm) :
    several spelling first [second] = binary spelling.fixity first second := by
  unfold several
  split_ifs with pairwise chainable
  · rfl
  · rfl
  · cases associativity : spelling.associativity with
    | none => simp [pairwise, chainable, associativity] at unrolls
    | some side => cases side <;> rfl

variable (enabled : (vocabulary.operators operator).spelling? = some spelling)
  (plain : ∀ template, spelling.fixity ≠ .templated template)

include enabled plain

theorem term_several (first second : Term) (others : List Term) :
    term vocabulary scope
      (.application (.operator operator) indices (first :: second :: others)
        sort) = (do
      let translatedFirst ← term vocabulary scope first
      let translatedSecond ← term vocabulary scope second
      let translatedOthers ← others.mapM (term vocabulary scope)
      return several spelling translatedFirst
        (translatedSecond :: translatedOthers)) := by
  have spelledPlain (arguments : List HolTerm) :
      spell vocabulary operator indices arguments sort =
        spelled operator (plain? spelling arguments) := by
    simp only [spell, enabled]
  rw [term, terms_eq_mapM]
  simp [spelledPlain, plain?, spelled]

/-- Two arguments are joined by one application, whatever the scheme. -/
theorem term_couple
    (unrolls : spelling.pairwise = true ∨ spelling.chainable = true ∨
      spelling.associativity.isSome = true) (first second : Term) :
    term vocabulary scope
        (.application (.operator operator) indices [first, second] sort) = (do
          return binary spelling.fixity (← term vocabulary scope first)
            (← term vocabulary scope second)) := by
  rw [term_several enabled plain]
  simp [several_couple unrolls]

/-- A pairwise operator holds of all pairs of arguments. -/
theorem term_pairwise (pairwise : spelling.pairwise = true)
    (first second : Term) (others : List Term) :
    term vocabulary scope
      (.application (.operator operator) indices (first :: second :: others)
        sort) = (do
      return .conjoin
        (← (pairs (first :: second :: others)).mapM fun (left, right) =>
          term vocabulary scope
            (.application (.operator operator) partIndices [left, right]
            partSort))) := by
  simp only [term_couple enabled plain (.inl pairwise)]
  rw [term_several enabled plain, mapM_pairs]
  simp [several, pairwise]

/-- A chainable operator holds of all neighbours among the arguments. -/
theorem term_chainable (pairwise : spelling.pairwise = false)
    (chainable : spelling.chainable = true) (first second : Term)
    (others : List Term) :
    term vocabulary scope
      (.application (.operator operator) indices (first :: second :: others)
        sort) = (do
      return .conjoin
        (← (neighbours (first :: second :: others)).mapM fun (left, right) =>
          term vocabulary scope
            (.application (.operator operator) partIndices [left, right]
            partSort))) := by
  simp only [term_couple enabled plain (.inr (.inl chainable))]
  rw [term_several enabled plain, mapM_neighbours]
  simp [several, pairwise, chainable]

/-- An operator that associates to the right is applied to the first argument
and to its own application to the others. -/
theorem term_right (pairwise : spelling.pairwise = false)
    (chainable : spelling.chainable = false)
    (associativity : spelling.associativity = some .right)
    (first second third : Term) (others : List Term) :
    term vocabulary scope (.application (.operator operator) indices
        (first :: second :: third :: others) sort) =
      term vocabulary scope (.application (.operator operator) indices
        [first, .application (.operator operator) partIndices
          (second :: third :: others) partSort]
        sort) := by
  rw [term_couple enabled plain (.inr (.inr (by simp [associativity]))),
    term_several enabled plain, term_several enabled plain]
  simp [several, pairwise, chainable, associativity, foldRight]

/-- An operator that associates to the left is applied to its own application to
all arguments but the last, and to the last. -/
theorem term_left (pairwise : spelling.pairwise = false)
    (chainable : spelling.chainable = false)
    (associativity : spelling.associativity = some .left)
    (first second last : Term) (others : List Term) :
    term vocabulary scope (.application (.operator operator) indices
        (first :: second :: others ++ [last]) sort) =
      term vocabulary scope (.application (.operator operator) indices
        [.application (.operator operator) partIndices
          (first :: second :: others) partSort, last]
        sort) := by
  rw [term_couple enabled plain (.inr (.inr (by simp [associativity]))),
    List.cons_append, List.cons_append, term_several enabled plain,
    term_several enabled plain]
  simp [several, pairwise, chainable, associativity, List.mapM_append]

end Applied

/-! ## Texts of applications -/

def termText (vocabulary : Vocabulary) (scope : HolScope) (source : Term) :
    Except Unsupported Text :=
  (term vocabulary scope source).map HolTerm.text

def conjunctionText (parts : List Text) : Text :=
  "(" ++ Text.join " \\<and> " parts ++ ")"

theorem text_conjunction (parts : List HolTerm) :
    (HolTerm.conjunction parts).text = conjunctionText
      (parts.map HolTerm.text) := by
  rw [HolTerm.text, HolTerm.conjunctsText_eq_join, conjunctionText]

theorem map_text_conjoin {Element : Type}
    (image : Element → Except Unsupported HolTerm) {elements : List Element}
    (several : 2 ≤ elements.length) :
    ((do return HolTerm.conjoin (← elements.mapM image)) : Except _ _).map
        HolTerm.text = (do
          return conjunctionText
            (← elements.mapM fun element =>
              (image element).map HolTerm.text)) := by
  have inTwoSteps : (fun element => (image element).map HolTerm.text) =
      fun element => do return HolTerm.text (← image element) := by
    funext element
    cases image element <;> rfl
  rw [inTwoSteps, mapM_map_results]
  cases computed : elements.mapM image with
  | error fault => rfl
  | ok parts =>
      rw [(Outcome.mapM_eq_ok.mp computed).length_eq] at several
      match parts with
      | [] | [_] => simp at several
      | first :: second :: others =>
          exact congrArg Except.ok
            (text_conjunction (first :: second :: others))

/-- An application to three or more arguments is written like what it
abbreviates: the conjunction over all pairs or over all neighbours, or an
application to two arguments, the second or the first of which is an application
again. -/
theorem termText_abbreviation (vocabulary : Vocabulary) (scope : HolScope)
    {operator : Operator} {spelling : Spelling}
    (enabled : (vocabulary.operators operator).spelling? = some spelling)
    (plain : ∀ template, spelling.fixity ≠ .templated template)
    {arguments : List Term}
    (several : 3 ≤ arguments.length) (indices partIndices : List Nat)
    (sort partSort : SmtSort) :
    let whole (parts : List Term) : Term :=
  .application (.operator operator) indices parts sort
    let part (parts : List Term) : Term :=
      .application (.operator operator) partIndices parts partSort
    (spelling.pairwise = true →
      termText vocabulary scope (whole arguments) = (do
        let parts ← (couples (fun left right => left < right) arguments).mapM
          fun (left, right) =>
          termText vocabulary scope (part [left, right])
        return conjunctionText parts)) ∧
    (spelling.pairwise = false → spelling.chainable = true →
      termText vocabulary scope (whole arguments) = (do
        let parts ← (couples
          (fun left right => right = left + 1) arguments).mapM
          fun (left, right) => termText vocabulary scope (part [left, right])
        return conjunctionText parts)) ∧
    (spelling.pairwise = false → spelling.chainable = false →
      spelling.associativity = some .right →
      ∀ first others, arguments = first :: others →
        termText vocabulary scope (whole arguments) =
          termText vocabulary scope (whole [first, part others])) ∧
    (spelling.pairwise = false → spelling.chainable = false →
      spelling.associativity = some .left →
      ∀ others last, arguments = others ++ [last] →
        termText vocabulary scope (whole arguments) =
          termText vocabulary scope (whole [part others, last])) := by
  intro whole part
  obtain ⟨first, second, third, others, rfl⟩ :
      ∃ first second third others,
        arguments = first :: second :: third :: others := by
    match arguments with
    | first :: second :: third :: others =>
      exact ⟨first, second, third, others, rfl⟩
    | [] | [_] | [_, _] => simp at several
  refine ⟨?pairwise, ?chainable, ?right, ?left⟩
  case pairwise =>
    intro pairwise
    rw [termText, term_pairwise enabled plain pairwise,
      map_text_conjoin _ (by simp [pairs]), pairs_eq_couples]
    rfl
  case chainable =>
    intro pairwise chainable
    rw [termText, term_chainable enabled plain pairwise chainable,
      map_text_conjoin _ (by simp [neighbours]), neighbours_eq_couples]
    rfl
  case right =>
    rintro pairwise chainable associativity _ _ ⟨rfl, rfl⟩
    rw [termText, term_right enabled plain pairwise chainable associativity]
    rfl
  case left =>
    intro pairwise chainable associativity initial last shape
    obtain ⟨_, _, rest, rfl⟩ :
        ∃ one two rest, initial = one :: two :: rest := by
      match initial with
      | [] | [_] => simp at shape
      | one :: two :: rest => exact ⟨one, two, rest, rfl⟩
    rw [termText, shape, term_left enabled plain pairwise chainable
      associativity]
    rfl

/-- Three applications to three arguments. -/
theorem termText_of_three :
    let words : Vocabulary := ⟨.default, []⟩
    let scope : HolScope := .ofNames [] ["a", "b", "c"]
    let number (name : Text) : Term := .symbol name .int
    let numbers : List Term := [number "a", number "b", number "c"]
    let applied (operator : Operator) (sort : SmtSort) : Term :=
      .application (.operator operator) [] numbers sort
    termText words scope (applied .distinctness .bool) =
        .ok
          "((a \\<noteq> b) \\<and> (a \\<noteq> c) \\<and> (b \\<noteq> c))" ∧
      termText words scope (applied .less .bool) =
        .ok "((a < b) \\<and> (b < c))" ∧
      termText words scope (applied .subtraction .int) =
        .ok "((a - b) - c)" := by
  intro words scope number numbers applied
  have three : 3 ≤ numbers.length := by decide
  have enabled (operator : Operator) :
      (words.operators operator).spelling? = operator.defaultSpelling? :=
    OperatorTable.spelling?_default operator
  have distinct :=
    (termText_abbreviation words scope (enabled .distinctness) (fun _ => nofun)
      three [] [] .bool .bool).1 rfl
  have less :=
    (termText_abbreviation words scope (enabled .less) (fun _ => nofun)
      three [] [] .bool .bool).2.1 rfl rfl
  have minus :=
    (termText_abbreviation words scope (enabled .subtraction) (fun _ => nofun)
      three [] [] .int .int).2.2.2 rfl rfl rfl [number "a", number "b"]
        (number "c") rfl
  exact ⟨distinct.trans rfl, less.trans rfl, minus.trans rfl⟩

end Translation

end ModelAudit
