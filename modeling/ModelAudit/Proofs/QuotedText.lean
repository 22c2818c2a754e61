import ModelAudit.Proofs.Legible
import ModelAudit.Theory.Lemma

/-!
# Texts between quotes

Types and propositions of a lemma stand between quotes. A text that stands there
leaves the quotes if it holds a quote or the end of the line, and Isabelle reads
on differently after the marks of cartouches and comments. Whether a text is
free of these is decided by a scanner that remembers little of what it has
passed. The scanner also stops before it has passed what a theory prints once
its lemma is accepted.
-/

namespace ModelAudit

namespace Text

/-- What must not stand between quotes: their end, the end of the line, and the
marks of cartouches and comments. -/
def breaks : List Text :=
  ["\"", "\n", "\\<open>", "\\<close>", "(*"]

/-- The text can stand between quotes. -/
def IsQuotable (text : Text) : Prop :=
  ∀ word ∈ breaks, ¬word <:+: text

end Text

/-! ## The scanner -/

/-- What a scanner has just passed, as far as it is the start of a word that
must not come. -/
inductive Glance
  | opening
  | angle
  /-- An angle before the letter that may begin the name of a cartouche. -/
  | angleO
  | colon
  | colonBlank
  | other
deriving DecidableEq

namespace Glance

/-- Passes one code point; none if a word comes that must not come. -/
def next? (before : Glance) (point : CodePoint) : Option Glance :=
  if point = '"' ∨ point = '\n' then none
  else if point = '(' then some opening
  else if point = '<' then some angle
  else if point = ':' then some colon
  else
    match before with
    | opening => if point = '*' then none else some other
    | angle =>
      if point = 'c' then none else if point = 'o' then some angleO
        else some other
    | angleO => if point = 'p' then none else some other
    | colon => if point = ' ' then some colonBlank else some other
    | colonBlank => if point = 'g' then none else some other
    | other => some other

/-- The scanner passes the whole text. -/
def Passes (before : Glance) (text : Text) (after : Glance) : Prop :=
  text.foldlM next? before = some after

instance (before : Glance) (text : Text) (after : Glance) :
    Decidable (Passes before text after) :=
  inferInstanceAs (Decidable (_ = _))

/-- The scanner does not pass the word, wherever it comes. -/
def Stops (word : Text) : Prop :=
  ∀ before : Glance, word.foldlM next? before = none

variable {before middle after : Glance} {text rest word : Text}

theorem Passes.append (first : Passes before text middle)
    (second : Passes middle rest after) :
    Passes before (text ++ rest) after := by
  rw [Passes, List.foldlM_append, first]
  exact second

theorem Passes.not_infix (passes : Passes before text after)
    (stops : Stops word) :
    ¬word <:+: text := by
  rintro ⟨start, rest, rfl⟩
  rw [Passes, List.foldlM_append, List.foldlM_append] at passes
  obtain ⟨reached, passes, _⟩ := Option.bind_eq_some_iff.mp passes
  obtain ⟨middle, _, passes⟩ := Option.bind_eq_some_iff.mp passes
  rw [stops middle] at passes
  cases passes

theorem stops_of_mem_breaks : ∀ word ∈ Text.breaks, Stops word := by
  intro word member before
  cases before <;> revert word <;> decide

theorem stops_provedMarker : Stops Theory.provedMarker := by
  intro before
  cases before <;> decide

theorem Passes.isQuotable (passes : Passes before text after) :
    text.IsQuotable :=
  fun word member => passes.not_infix (stops_of_mem_breaks word member)

/-- Parts that pass between separators that pass. -/
theorem passes_join {separator : Text}
    (separates : Passes .other separator .other) {parts : List Text}
    (passes : ∀ part ∈ parts, Passes .other part .other) :
    Passes .other (Text.join separator parts) .other := by
  induction parts with
  | nil => rfl
  | cons part parts inductionHypothesis =>
      obtain ⟨here, later⟩ := List.forall_mem_cons.mp passes
      cases parts with
      | nil =>
          rw [Text.join, List.intercalate_singleton]
          exact here
      | cons next parts =>
          rw [Text.join, List.intercalate_cons_cons]
          exact (here.append separates).append (inductionHypothesis later)

/-! ## Idle code points -/

/-- The marks that begin or continue a word after most code points and after a
parenthesis. -/
def marks : List CodePoint :=
  ['"', '\n', '(', '<', ':', '*']

/-- The code points that begin or continue a word anywhere. -/
def continuations : List CodePoint :=
  marks ++ [CodePoint.ofChar 'c', CodePoint.ofChar 'o', CodePoint.ofChar 'p',
    CodePoint.ofChar 'g', CodePoint.ofChar ' ']

theorem next?_of_not_mem_marks {point : CodePoint} (idle : point ∉ marks) :
    next? .opening point = some .other ∧ next? .other point = some .other := by
  simp only [marks, List.mem_cons, List.not_mem_nil, or_false, not_or] at idle
  simp [next?, idle]

theorem next?_of_not_mem_continuations {point : CodePoint}
    (idle : point ∉ continuations) :
    next? before point = some .other := by
  simp only [continuations, marks, List.mem_append, List.mem_cons,
    List.not_mem_nil, or_false, not_or] at idle
  cases before <;> simp [next?, idle]

theorem passes_of_idle (idle : ∀ point ∈ text, point ∉ marks) :
    Passes .other text .other := by
  induction text with
  | nil => rfl
  | cons first rest inductionHypothesis =>
      obtain ⟨here, later⟩ := List.forall_mem_cons.mp idle
      rw [Passes, List.foldlM_cons, (next?_of_not_mem_marks here).2]
      exact inductionHypothesis later

/-- A test that rejects all listed code points. -/
theorem not_mem_of_test {listed : List CodePoint} {test : CodePoint → Bool}
    {point : CodePoint} (rejects : ∀ mark ∈ listed, test mark = false)
    (accepted : test point = true) :
    point ∉ listed := by
  intro member
  rw [rejects point member] at accepted
  cases accepted

theorem idle_of_isWordPart {point : CodePoint}
    (part : InnerSyntax.isWordPart point = true) :
    point ∉ marks :=
  not_mem_of_test (by decide) part

theorem idle_of_isDigit {point : CodePoint} (digit : point.isDigit = true) :
    point ∉ marks :=
  not_mem_of_test (by decide) digit

/-- A number passes, whatever comes before it. -/
theorem passes_decimal (number : Nat) :
    Passes before (Text.decimal number) .other := by
  have digits : ∀ point ∈ Text.decimal number, point.isDigit = true :=
    fun point member => InnerSyntax.isDigit_of_mem_decimal member
  cases shape : Text.decimal number with
  | nil => simp [Text.decimal] at shape
  | cons first rest =>
      rw [shape] at digits
      obtain ⟨here, later⟩ := List.forall_mem_cons.mp digits
      have start : next? before first = some .other :=
        next?_of_not_mem_continuations (not_mem_of_test (by decide) here)
      rw [Passes, List.foldlM_cons, start]
      exact passes_of_idle fun point member =>
        idle_of_isDigit (later point member)

theorem passes_integer (number : Int) :
    Passes before (Text.integer number) .other := by
  cases number with
  | ofNat number => exact passes_decimal number
  | negSucc number =>
      have start : Passes before "-" .other := by cases before <;> decide
      exact start.append (passes_decimal _)

end Glance

/-! ## Texts that pass -/

open Glance

/-- The text can go on after most code points, and after an opening
parenthesis. -/
structure Text.Inert (text : Text) : Prop where
  inside : Passes .other text .other
  first : Passes .opening text .other

theorem Text.inert_of_idle {text : Text} (nonempty : text ≠ [])
    (idle : ∀ point ∈ text, point ∉ marks) : text.Inert := by
  refine ⟨passes_of_idle idle, ?_⟩
  cases text with
  | nil => exact absurd rfl nonempty
  | cons first rest =>
      obtain ⟨here, later⟩ := List.forall_mem_cons.mp idle
      rw [Passes, List.foldlM_cons, (next?_of_not_mem_marks here).1]
      exact passes_of_idle later

theorem Text.inert_of_isWord {text : Text}
    (word : InnerSyntax.isWord text = true) :
    text.Inert := by
  cases text with
  | nil => cases word
  | cons first rest =>
      obtain ⟨letter, parts⟩ := InnerSyntax.isWord_cons.mp word
      refine inert_of_idle (List.cons_ne_nil _ _)
        (List.forall_mem_cons.mpr ⟨?_, ?_⟩)
      · exact not_mem_of_test (by decide) letter
      · exact fun point member => idle_of_isWordPart (parts point member)

namespace Glance

variable {before after : Glance} {text : Text}

/-- Whatever comes before it, a text in parentheses passes if it does so after
the first one. -/
theorem Passes.parens (passes : Passes .opening text .other) :
    Passes before ("(" ++ text ++ ")") .other := by
  have opened : Passes before "(" .opening := by cases before <;> decide
  exact (opened.append passes).append (by decide)

end Glance

theorem Text.inert_parens {text : Text} (passes : Passes .opening text .other) :
    Text.Inert ("(" ++ text ++ ")") :=
  ⟨passes.parens, passes.parens⟩

end ModelAudit
