import ModelAudit.Proofs.InnerSyntax

/-!
# Texts that are grouped as a whole

Where two texts meet at a delimiter, they are cut into tokens separately, and
the phrases of a text without stray parentheses do not depend on what is around
it.
-/

namespace ModelAudit.InnerSyntax

/-! ## Tokens of joined texts -/

/-- No token goes on from the first text to the second. -/
def Apart (left right : Text) : Prop :=
  left.getLast?.all isDelimiter = true ∨ right.head?.all isDelimiter = true

private theorem tokens_ne_nil {point : CodePoint} (rest : Text)
    (inside : isDelimiter point = false) :
    tokens (point :: rest) ≠ [] := by
  have visible : point ≠ ' ' := by
    rintro rfl
    have blank : isDelimiter ' ' = true := by decide
    rw [blank] at inside
    cases inside
  rw [tokens, if_neg visible]
  split
  · simp
  · split <;> simp

/-- Texts that stand apart have the tokens of both. -/
theorem tokens_append {left right : Text} (apart : Apart left right) :
    tokens (left ++ right) = tokens left ++ tokens right := by
  induction left with
  | nil => rfl
  | cons point rest inductionHypothesis =>
      rw [List.cons_append, tokens, tokens]
      by_cases blank : point = ' '
      · rw [if_pos blank, if_pos blank]
        cases rest with
        | nil => rfl
        | cons next rest => exact inductionHypothesis apart
      · rw [if_neg blank, if_neg blank]
        cases rest with
        | nil =>
            have last : (isDelimiter point || right.head?.all isDelimiter) =
                true := by
              simpa [Apart] using apart
            simp [last, tokens]
        | cons next rest =>
            rw [inductionHypothesis apart]
            cases ends : isDelimiter point || isDelimiter next with
            | true => simp [ends]
            | false =>
                have inside : isDelimiter next = false :=
                  (Bool.or_eq_false_iff.mp ends).2
                cases same : tokens (next :: rest) with
                | nil => exact absurd same (tokens_ne_nil rest inside)
                | cons token others => simp [ends]

/-- A text without delimiters is a single token. -/
theorem tokens_of_no_delimiter {word : Text} (nonempty : word ≠ [])
    (inside : ∀ point ∈ word, isDelimiter point = false) :
    tokens word = [word] := by
  induction word with
  | nil => exact absurd rfl nonempty
  | cons point rest inductionHypothesis =>
      have head : isDelimiter point = false := inside point (by simp)
      have visible : point ≠ ' ' := by
        rintro rfl
        exact absurd head (by decide)
      rw [tokens, if_neg visible, head]
      cases rest with
      | nil => rfl
      | cons next rest =>
          have second : isDelimiter next = false := inside next (by simp)
          have others := inductionHypothesis (by simp) fun point member =>
            inside point (List.mem_cons_of_mem _ member)
          simp [second, others]

/-! ## Phrases of joined texts -/

section Tokens

variable {outer : List (List Phrase)} {items before : List Phrase}
  {token : Text} {rest : List Text}

theorem phrases_opening :
    phrases outer items ("(" :: rest) = phrases (items :: outer) [] rest := by
  rw [phrases.eq_def]
  exact if_pos rfl

theorem phrases_closing :
    phrases (before :: outer) items (")" :: rest) =
      phrases outer (before ++ [.parens items]) rest := by
  have different : (")" : Text) ≠ "(" := by decide
  rw [phrases.eq_def]
  exact (if_neg different).trans (if_pos rfl)

theorem phrases_word (notOpening : token ≠ "(") (notClosing : token ≠ ")") :
    phrases outer items (token :: rest) = phrases outer
      (items ++ [.word token]) rest := by
  rw [phrases.eq_def]
  exact (if_neg notOpening).trans (if_neg notClosing)

end Tokens

/-- The text is grouped into these items wherever it stands. -/
def Yields (text : Text) (items : List Phrase) : Prop :=
  ∀ outer before rest,
    phrases outer before (tokens text ++ rest) = phrases outer
      (before ++ items) rest

/-- A text of these tokens that may stand before any other text. -/
abbrev IsLead (lead : Text) (words : List Text) : Prop :=
  tokens lead = words ∧ (∀ word ∈ words, word ≠ "(" ∧ word ≠ ")") ∧
    lead.getLast?.all isDelimiter = true

/-- A text of these tokens that may stand between any other texts. -/
abbrev IsMark (mark : Text) (words : List Text) : Prop :=
  IsLead mark words ∧ mark ≠ [] ∧ mark.head?.all isDelimiter = true

namespace Yields

variable {left right text mark : Text} {first second items : List Phrase}

theorem nil : Yields [] [] := by
  intro outer before rest
  simp [tokens]

theorem append (leftYields : Yields left first)
    (rightYields : Yields right second) (apart : Apart left right) :
    Yields (left ++ right) (first ++ second) := by
  intro outer before rest
  rw [tokens_append apart, List.append_assoc, leftYields, rightYields,
    List.append_assoc]

/-- A text without parentheses. -/
theorem words {words : List Text} (shape : tokens text = words)
    (plain : ∀ word ∈ words, word ≠ "(" ∧ word ≠ ")") :
    Yields text (words.map .word) := by
  intro outer before rest
  rw [shape]
  clear shape
  induction words generalizing before with
  | nil => simp
  | cons word others inductionHypothesis =>
      obtain ⟨notOpening, notClosing⟩ := plain word (by simp)
      have tail := inductionHypothesis
        (fun word member => plain word (List.mem_cons_of_mem _ member))
        (before ++ [.word word])
      rw [List.cons_append, phrases_word notOpening notClosing, tail]
      simp

theorem word {word : Text} (nonempty : word ≠ [])
    (inside : ∀ point ∈ word, isDelimiter point = false) :
    Yields word [.word word] := by
  refine words (tokens_of_no_delimiter nonempty inside) ?_
  intro other member
  obtain rfl := List.mem_singleton.mp member
  constructor
  · rintro rfl
    exact absurd (inside '(' (by decide)) (by decide)
  · rintro rfl
    exact absurd (inside ')' (by decide)) (by decide)

theorem parens (yields : Yields text items) :
    Yields ("(" ++ text ++ ")") [.parens items] := by
  have opening : tokens "(" = [Text.ofString "("] := by decide
  have closing : tokens ")" = [Text.ofString ")"] := by decide
  have afterOpening : Apart "(" text := .inl (by decide)
  have beforeClosing : Apart ("(" ++ text) ")" := .inr (by decide)
  intro outer before rest
  rw [tokens_append beforeClosing, tokens_append afterOpening, opening, closing,
    List.append_assoc, List.append_assoc, List.singleton_append,
    phrases_opening, yields, List.singleton_append, List.nil_append,
    phrases_closing]

theorem after {words : List Text} (lead : IsLead mark words)
    (yields : Yields text items) :
    Yields (mark ++ text) (words.map .word ++ items) :=
  append (.words lead.1 lead.2.1) yields (.inl lead.2.2)

/-- A mark between two texts stands between their items. -/
theorem around {words : List Text} (leftYields : Yields left first)
    (isMark : IsMark mark words) (rightYields : Yields right second) :
    Yields (left ++ mark ++ right) (first ++ words.map .word ++ second) := by
  obtain ⟨⟨shape, plain, closed⟩, nonempty, opened⟩ := isMark
  refine (leftYields.append (.words shape plain) (.inr opened)).append
    rightYields (.inl ?_)
  obtain ⟨last, lastShape⟩ : ∃ last, mark.getLast? = some last :=
    Option.ne_none_iff_exists'.mp (by simpa using nonempty)
  rw [lastShape] at closed
  rw [List.getLast?_append, lastShape]
  exact closed

end Yields

end ModelAudit.InnerSyntax
