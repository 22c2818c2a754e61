import Mathlib.Data.List.ReduceOption
import ModelAudit.Proofs.StableLexemes

/-!
# Outlines of texts

An outline lists the tokens of a text and remembers where comments stand between
them, but no white space. It is kept when white space at the ends of a text is
removed, and it says what stands at the beginning and at the end of a text.
-/

namespace ModelAudit

/-- Tokens in order, with `none` in the place of each comment. -/
abbrev Outline := List (Option Lexeme)

namespace Lexer

/-- What a lexeme adds to an outline. -/
def noted (kind : LexemeClass) (lexeme : Option Lexeme) : Outline :=
  if kind = .blank then [] else [lexeme]

/-- The outline of a text up to its first fault. -/
def outline : Text → Outline
  | [] => []
  | first :: rest =>
    match recognize first rest with
    | none => []
    | some (kind, count) =>
      match lexemeOf kind (first :: rest.take count) with
      | .error _ => []
      | .ok lexeme => noted kind lexeme ++ outline (rest.drop count)
termination_by text => text.length
decreasing_by simp only [List.length_drop, List.length_cons]; omega

/-- A text without faults has an outline. -/
inductive Outlines : Text → Outline → Prop
  | nil : Outlines [] []
  | lexeme {first : CodePoint} {rest : Text} {kind : LexemeClass} {count : Nat}
      {lexeme : Option Lexeme} {later : Outline} :
      recognize first rest = some (kind, count) →
      lexemeOf kind (first :: rest.take count) = .ok lexeme →
      Outlines (rest.drop count) later →
      Outlines (first :: rest) (noted kind lexeme ++ later)

variable {first : CodePoint} {rest text part : Text} {kind : LexemeClass}
  {count : Nat} {lexeme : Option Lexeme} {outlined later : Outline}

theorem outline_eq (outlines : Outlines text outlined) :
    outline text = outlined := by
  induction outlines with
  | nil => rw [outline]
  | lexeme recognized lexed _ inductionHypothesis =>
      rw [outline, recognized]
      dsimp only
      rw [lexed]
      dsimp only
      rw [inductionHypothesis]

/-! ## Tokens -/

theorem lexemeOf_cases (lexed : lexemeOf kind part = .ok lexeme) :
    (kind = .blank ∨ kind = .comment) ∧ lexeme = none ∨
      kind = .leftParenthesis ∧ lexeme = some .leftParenthesis ∨
      kind = .rightParenthesis ∧ lexeme = some .rightParenthesis ∨
      kind = .symbol ∧ lexeme = some (.atom (.symbol part false)) ∨
      kind ≠ .symbol ∧ ∃ leaf, lexeme = some (.atom leaf) ∧
      ∀ word, leaf ≠ .symbol word false := by
  cases kind with
  | string =>
      obtain ⟨contents, _, lexed⟩ := Outcome.bind_eq_ok.mp lexed
      obtain rfl := Except.ok.inj lexed
      simp
  | blank | comment | leftParenthesis | rightParenthesis | quotedSymbol
  | hexadecimal | binary
  | decimal | numeral | keyword | symbol =>
      obtain rfl := Except.ok.inj lexed
      simp

theorem isToken_of_lexemeOf {lexeme : Lexeme}
    (lexed : lexemeOf kind part = .ok (some lexeme)) :
    kind ≠ .blank ∧ kind ≠ .comment := by
  constructor <;> rintro rfl <;> cases lexed

theorem kind_of_none (lexed : lexemeOf kind part = .ok none) :
    kind = .blank ∨ kind = .comment := by
  simpa using lexemeOf_cases lexed

theorem kind_of_leftParenthesis
    (lexed : lexemeOf kind part = .ok (some .leftParenthesis)) :
    kind = .leftParenthesis := by
  simpa using lexemeOf_cases lexed

theorem kind_of_rightParenthesis
    (lexed : lexemeOf kind part = .ok (some .rightParenthesis)) :
    kind = .rightParenthesis := by
  simpa using lexemeOf_cases lexed

theorem reduceOption_noted (lexed : lexemeOf kind part = .ok lexeme) :
    (noted kind lexeme).reduceOption = lexeme.toList := by
  cases lexeme with
  | none =>
      rw [noted]
      split <;> rfl
  | some lexeme =>
      rw [noted, if_neg (isToken_of_lexemeOf lexed).1]
      rfl

theorem tokens_prepend (lexeme : Option Lexeme) (position : Position)
    (scan : Scan) :
    (scan.prepend lexeme position).tokens.map Token.lexeme =
      lexeme.toList ++ scan.tokens.map Token.lexeme := by
  cases lexeme <;> rfl

theorem fault_prepend (lexeme : Option Lexeme) (position : Position)
    (scan : Scan) :
    (scan.prepend lexeme position).fault = scan.fault := by
  cases lexeme <;> rfl

/-- Scanned text has an outline, with the tokens in their places. -/
theorem outlines_of_scanFrom (position : Position) (text : Text)
    (scanned : (scanFrom position text).fault = none) :
    Outlines text (outline text) ∧
      (outline text).reduceOption =
        (scanFrom position text).tokens.map Token.lexeme := by
  induction position, text using scanFrom.induct with
  | case1 position =>
      rw [outline, scanFrom]
      exact ⟨.nil, rfl⟩
  | case2 position first rest unrecognized =>
      rw [scanFrom, unrecognized] at scanned
      cases scanned
  | case3 position first rest kind count recognized written cause fault =>
      rw [scanFrom, recognized] at scanned
      dsimp only at scanned
      rw [fault] at scanned
      cases scanned
  | case4 position first rest kind count recognized written lexeme lexed
      inductionHypothesis =>
      rw [scanFrom, recognized] at scanned ⊢
      dsimp only at scanned ⊢
      rw [lexed] at scanned ⊢
      rw [fault_prepend] at scanned
      obtain ⟨outlines, tokens⟩ := inductionHypothesis scanned
      have whole : Outlines (first :: rest) _ :=
        .lexeme recognized lexed outlines
      rw [outline_eq whole, tokens_prepend, ← tokens, List.reduceOption_append,
        reduceOption_noted lexed]
      exact ⟨whole, rfl⟩

/-- A text with an outline is scanned without fault, and its tokens are those of
the outline. -/
theorem Outlines.scanFrom (outlines : Outlines text outlined)
    (position : Position) :
    (scanFrom position text).fault = none ∧
      (scanFrom position text).tokens.map Token.lexeme =
        outlined.reduceOption := by
  induction outlines generalizing position with
  | nil =>
      rw [Lexer.scanFrom]
      exact ⟨rfl, rfl⟩
  | lexeme recognized lexed _ inductionHypothesis =>
      rw [Lexer.scanFrom, recognized]
      dsimp only
      rw [lexed]
      dsimp only
      rw [fault_prepend, tokens_prepend, List.reduceOption_append,
        reduceOption_noted lexed]
      obtain ⟨faultless, tokens⟩ :=
        inductionHypothesis (position.after (_ :: _))
      exact ⟨faultless, by rw [tokens]⟩

theorem outlines_of_tokenize {tokens : List Token}
    (tokenized : tokenize text = .ok tokens) :
    Outlines text (outline text) ∧
    (outline text).reduceOption = tokens.map Token.lexeme := by
  unfold ModelAudit.tokenize at tokenized
  dsimp only at tokenized
  split at tokenized
  · next faultless =>
    obtain rfl := Except.ok.inj tokenized
    exact outlines_of_scanFrom .start text faultless
  · cases tokenized

theorem Outlines.tokenize (outlines : Outlines text outlined) :
    ∃ tokens, tokenize text = .ok tokens ∧
      tokens.map Token.lexeme = outlined.reduceOption := by
  obtain ⟨faultless, tokens⟩ := outlines.scanFrom .start
  refine ⟨_, ?_, tokens⟩
  unfold ModelAudit.tokenize scan
  dsimp only
  rw [faultless]

/-! ## Parts of a text -/

/-- A lexeme keeps its length where the text after it ends earlier. -/
theorem Outlines.lexeme_of_initial
    (recognized : recognize first rest = some (kind, count))
    (lexed : lexemeOf kind (first :: rest.take count) = .ok lexeme)
    (initial : part <+: rest.drop count) (outlines : Outlines part later) :
    Outlines (first :: (rest.take count ++ part))
      (noted kind lexeme ++ later) := by
  have length : (rest.take count).length = count :=
    List.length_take_of_le (le_length_of_recognize recognized)
  have whole : rest.take count ++ part <+: rest := by
    conv => rhs; rw [← List.take_append_drop count rest]
    exact (List.prefix_append_right_inj _).mpr initial
  have recognizedPart := recognize_of_initial recognized whole (by
    rw [List.length_append, length]
    exact Nat.le_add_right _ _)
  refine .lexeme recognizedPart ?_ ?_
  · rwa [List.take_left' length]
  · rwa [List.drop_left' length]

theorem outlined_eq_nil (outlines : Outlines [] outlined) : outlined = [] := by
  rw [← outline_eq outlines, outline]

/-- The rest of a line is one comment. -/
theorem outlines_comment
    (line : ∀ point ∈ part, point ≠ CodePoint.ofChar '\n') :
    Outlines (';' :: part) [none] := by
  have span : spanLength (fun point : CodePoint => point ≠ '\n') part =
      part.length := by
    rw [spanLength, List.takeWhile_eq_self_iff.mpr fun point member =>
      decide_eq_true (line point member)]
  have recognized := recognize_semicolon part
  rw [span] at recognized
  refine .lexeme recognized rfl ?_
  rw [List.drop_length]
  exact .nil

theorem stripRight_append (front back : Text) :
    Text.stripRight (front ++ back) =
      if back.stripRight = [] then front.stripRight
        else front ++ back.stripRight := by
  simp only [Text.stripRight, List.reverse_append, List.dropWhile_append,
    List.isEmpty_iff, List.reverse_eq_nil_iff]
  split <;> simp

theorem stripRight_initial (text : Text) : text.stripRight <+: text := by
  rw [← List.reverse_suffix, Text.stripRight, List.reverse_reverse]
  exact List.dropWhile_suffix _

theorem stripRight_of_getLast? {last : CodePoint}
    (ends : text.getLast? = some last) (solid : last.isBlank = false) :
    text.stripRight = text := by
  obtain ⟨front, rfl⟩ := List.getLast?_eq_some_iff.mp ends
  rw [Text.stripRight, List.reverse_append, List.reverse_singleton,
    List.singleton_append, List.dropWhile_cons_of_neg (by simp [solid]),
    ← List.singleton_append, List.reverse_append, List.reverse_reverse,
    List.reverse_singleton]

theorem stripRight_of_forall (blank : ∀ point ∈ text, point.isBlank = true) :
    text.stripRight = [] := by
  rw [Text.stripRight, List.reverse_eq_nil_iff, List.dropWhile_eq_nil_iff]
  exact fun point member => blank point (List.mem_reverse.mp member)

/-! ## White space at the ends -/

/-- A text with no white space at its ends. -/
structure Trimmed (text : Text) : Prop where
  opens : ∀ point ∈ text.head?, point.isBlank = false
  closes : ∀ point ∈ text.getLast?, point.isBlank = false

theorem trimmed_strip (text : Text) : Trimmed text.strip where
  opens := by
    intro point member
    obtain ⟨rest, shape⟩ := List.head?_eq_some_iff.mp member
    obtain ⟨more, whole⟩ := stripRight_initial text.stripLeft
    rw [← Text.strip, shape, List.cons_append] at whole
    refine not_accepts_of_mem_head? CodePoint.isBlank text point ?_
    rw [← Text.stripLeft, ← whole]
    rfl
  closes := by
    rw [Text.strip, Text.stripRight, List.getLast?_reverse]
    exact not_accepts_of_mem_head? CodePoint.isBlank _

/-- White space in front does not change the outline. -/
theorem Outlines.stripLeft (outlines : Outlines text outlined) :
    Outlines text.stripLeft outlined := by
  cases outlines with
  | nil => exact .nil
  | @lexeme first rest kind count lexeme later recognized lexed following =>
      by_cases blank : kind = .blank
      · subst blank
        obtain ⟨isBlank, rfl⟩ := isBlank_of_recognize recognized
        rw [Text.stripLeft, List.dropWhile_cons_of_pos isBlank,
          dropWhile_eq_drop]
        exact following
      · have solid := isBlank_eq_false_of_recognize recognized blank
        rw [Text.stripLeft, List.dropWhile_cons_of_neg (by simp [solid])]
        exact .lexeme recognized lexed following

/-- White space at the end of a single lexeme can be stripped, as only a comment
has some. -/
theorem outlines_stripRight_of_recognize
    (recognized : recognize first rest = some (kind, count))
    (lexed : lexemeOf kind (first :: rest.take count) = .ok lexeme) :
    Outlines (Text.stripRight (first :: rest.take count))
      (noted kind lexeme) := by
  by_cases blank : kind = .blank
  · subst blank
    obtain ⟨isBlank, rfl⟩ := isBlank_of_recognize recognized
    rw [stripRight_of_forall]
    · exact .nil
    · rw [take_spanLength]
      exact List.forall_mem_cons.mpr
        ⟨isBlank, fun point member => List.mem_takeWhile_imp member⟩
  by_cases isComment : kind = .comment
  · subst isComment
    obtain ⟨rfl, rfl⟩ := eq_semicolon_of_recognize recognized
    obtain rfl := Except.ok.inj lexed
    have line : ∀ point ∈ rest.takeWhile fun point : CodePoint => point ≠ '\n',
        point ≠ CodePoint.ofChar '\n' := by
      intro point member
      simpa using List.mem_takeWhile_imp member
    rw [take_spanLength, ← List.singleton_append, stripRight_append]
    split
    · exact outlines_comment fun _ member => absurd member List.not_mem_nil
    · exact outlines_comment fun point member =>
        line point ((stripRight_initial _).subset member)
  · obtain ⟨last, ends, solid⟩ :=
      exists_getLast?_of_recognize recognized ⟨blank, isComment⟩
    rw [stripRight_of_getLast? ends solid]
    have alone :=
      Outlines.lexeme_of_initial recognized lexed (List.nil_prefix) .nil
    rwa [List.append_nil, List.append_nil] at alone

theorem Outlines.stripRight (outlines : Outlines text outlined) :
    Outlines text.stripRight outlined := by
  induction outlines with
  | nil => exact .nil
  | @lexeme first rest kind count lexeme later recognized lexed _
      inductionHypothesis =>
      rw [← List.take_append_drop count rest, ← List.cons_append,
        stripRight_append]
      split
      · next empty =>
        rw [empty] at inductionHypothesis
        obtain rfl := outlined_eq_nil inductionHypothesis
        rw [List.append_nil]
        exact outlines_stripRight_of_recognize recognized lexed
      · exact .lexeme_of_initial recognized lexed
          (stripRight_initial _) inductionHypothesis

/-- White space at the ends of a text leaves no trace in its outline. -/
theorem Outlines.strip (outlines : Outlines text outlined) :
    Outlines text.strip outlined :=
  outlines.stripLeft.stripRight

theorem eq_nil_of_stripLeft
    (closes : ∀ point ∈ text.getLast?, point.isBlank = false)
    (empty : text.stripLeft = []) : text = [] := by
  rw [Text.stripLeft, List.dropWhile_eq_nil_iff] at empty
  by_contra nonempty
  have solid := closes _ (List.getLast?_eq_some_getLast nonempty)
  rw [empty _ (List.getLast_mem nonempty)] at solid
  cases solid

theorem Outlines.eq_nil_of_opens (outlines : Outlines text [])
    (opens : ∀ point ∈ text.head?, point.isBlank = false) : text = [] := by
  generalize empty : ([] : Outline) = outlined at outlines
  cases outlines with
  | nil => rfl
  | @lexeme first rest kind count lexeme later recognized lexed following =>
      rw [noted, if_neg (ne_blank_of_recognize recognized (opens first rfl))]
        at empty
      cases empty

theorem Outlines.eq_nil_of_closes (outlines : Outlines text [])
    (closes : ∀ point ∈ text.getLast?, point.isBlank = false) : text = [] :=
  eq_nil_of_stripLeft closes
    (outlines.stripLeft.eq_nil_of_opens
      (not_accepts_of_mem_head? CodePoint.isBlank text))

/-! ## The ends of an outline -/

/-- The first entry of an outline comes from the lexeme at the start of the
text. -/
theorem Outlines.uncons {entry : Option Lexeme}
    (outlines : Outlines text (entry :: later))
    (opens : ∀ point ∈ text.head?, point.isBlank = false) :
    ∃ first rest kind count, text = first :: rest ∧
      recognize first rest = some (kind, count) ∧
      kind ≠ .blank ∧ lexemeOf kind (first :: rest.take count) = .ok entry ∧
      Outlines (rest.drop count) later := by
  generalize whole : entry :: later = outlined at outlines
  cases outlines with
  | nil => cases whole
  | @lexeme first rest kind count lexeme following recognized lexed outlines =>
      have solid := ne_blank_of_recognize recognized (opens first rfl)
      rw [noted, if_neg solid] at whole
      obtain ⟨rfl, rfl⟩ := List.cons.inj whole
      exact ⟨first, rest, kind, count, rfl, recognized, solid, lexed, outlines⟩

/-- The last entry of an outline comes from the lexeme at the end of the text,
which may end earlier or be missing. -/
theorem Outlines.unsnoc {entry : Option Lexeme} {earlier : Outline}
    (outlines : Outlines text (earlier ++ [entry]))
    (closes : ∀ point ∈ text.getLast?, point.isBlank = false) :
    ∃ front first rest kind, text = front ++ first :: rest ∧
      recognize first rest = some (kind, rest.length) ∧ kind ≠ .blank ∧
      lexemeOf kind (first :: rest) = .ok entry ∧
      ∀ {part : Text} {last : Outline}, part <+: first :: rest →
        Outlines part last →
        Outlines (front ++ part) (earlier ++ last) := by
  generalize whole : earlier ++ [entry] = outlined at outlines
  induction outlines generalizing earlier with
  | nil => simp at whole
  | @lexeme first rest kind count lexeme later recognized lexed outlines
      inductionHypothesis =>
      have closesLater :
          ∀ point ∈ (rest.drop count).getLast?, point.isBlank = false := by
        intro point member
        refine closes point ?_
        rw [← List.take_append_drop count rest, ← List.cons_append,
          List.getLast?_append, Option.mem_def.mp member]
        rfl
      rcases List.eq_nil_or_concat later with rfl | ⟨middle, last, rfl⟩
      · have atEnd := outlines.eq_nil_of_closes closesLater
        have counted : count = rest.length :=
          Nat.le_antisymm (le_length_of_recognize recognized)
            (List.drop_eq_nil_iff.mp atEnd)
        subst counted
        rw [List.append_nil, noted] at whole
        split at whole
        · simp at whole
        · next solid =>
          rw [← List.nil_append [lexeme]] at whole
          obtain ⟨rfl, same⟩ := List.append_inj' whole rfl
          obtain rfl := (List.cons.inj same).1
          rw [List.take_length] at lexed
          exact ⟨[], first, rest, kind, rfl, recognized, solid, lexed,
            fun _ outlines => outlines⟩
      · rw [List.concat_eq_append, ← List.append_assoc] at whole
        obtain ⟨rfl, same⟩ := List.append_inj' whole rfl
        obtain rfl := (List.cons.inj same).1
        obtain ⟨front, lastFirst, lastRest, lastKind, shape, recognizedLast,
          solid, lexedLast, shorten⟩ :=
          inductionHypothesis closesLater List.concat_eq_append.symm
        refine ⟨first :: (rest.take count ++ front), lastFirst, lastRest,
          lastKind, ?_, recognizedLast, solid, lexedLast,
          fun {part last} initial outlines => ?_⟩
        · rw [List.cons_append, List.append_assoc, ← shape,
            List.take_append_drop]
        · rw [List.cons_append, List.append_assoc, List.append_assoc]
          refine .lexeme_of_initial recognized lexed ?_
            (shorten initial outlines)
          rw [shape]
          exact (List.prefix_append_right_inj front).mpr initial

/-! ## Parentheses at the ends -/

/-- A text opens with a parenthesis exactly if its outline does. -/
theorem head?_eq_opening_iff (outlines : Outlines text outlined)
    (opens : ∀ point ∈ text.head?, point.isBlank = false) :
    text.head? = some (CodePoint.ofChar '(') ↔
      outlined.head? = some (some .leftParenthesis) := by
  cases outlined with
  | nil =>
      rw [outlines.eq_nil_of_opens opens]
      simp
  | cons entry later =>
      obtain ⟨first, rest, kind, count, rfl, recognized, _, lexed, _⟩ :=
        outlines.uncons opens
      rw [List.head?_cons, List.head?_cons, Option.some.injEq,
        Option.some.injEq]
      constructor
      · rintro rfl
        rw [recognize_opening] at recognized
        obtain ⟨rfl, rfl⟩ := Prod.mk.inj (Option.some.inj recognized)
        exact (Except.ok.inj lexed).symm
      · rintro rfl
        obtain rfl := kind_of_leftParenthesis lexed
        exact (eq_opening_of_recognize recognized).1

/-- What follows an opening parenthesis. -/
theorem Outlines.drop_opening
    (outlines : Outlines text (some .leftParenthesis :: later))
    (opens : ∀ point ∈ text.head?, point.isBlank = false) :
    ∃ rest, text = CodePoint.ofChar '(' :: rest ∧ Outlines rest later := by
  obtain ⟨first, rest, kind, count, rfl, recognized, _, lexed, following⟩ :=
    outlines.uncons opens
  obtain rfl := kind_of_leftParenthesis lexed
  obtain ⟨rfl, rfl⟩ := eq_opening_of_recognize recognized
  exact ⟨rest, rfl, following⟩

/-- What stands before a closing parenthesis. -/
theorem Outlines.drop_closing {earlier : Outline}
    (outlines : Outlines text (earlier ++ [some .rightParenthesis]))
    (closes : ∀ point ∈ text.getLast?, point.isBlank = false) :
    ∃ front, text = front ++ [CodePoint.ofChar ')'] ∧
      Outlines front earlier := by
  obtain ⟨front, first, rest, kind, rfl, recognized, _, lexed, shorten⟩ :=
    outlines.unsnoc closes
  obtain rfl := kind_of_rightParenthesis lexed
  obtain ⟨rfl, length⟩ := eq_closing_of_recognize recognized
  obtain rfl := List.length_eq_zero_iff.mp length
  have alone := shorten List.nil_prefix .nil
  rw [List.append_nil, List.append_nil] at alone
  exact ⟨front, rfl, alone⟩

/-- A comment at the end may lose a parenthesis. -/
theorem Outlines.dropLast_comment {earlier : Outline}
    (outlines : Outlines text (earlier ++ [none]))
    (closes : ∀ point ∈ text.getLast?, point.isBlank = false)
    (closed : text.getLast? = some (CodePoint.ofChar ')')) :
    Outlines text.dropLast (earlier ++ [none]) := by
  obtain ⟨front, first, rest, kind, rfl, recognized, solid, lexed, shorten⟩ :=
    outlines.unsnoc closes
  obtain rfl := (kind_of_none lexed).resolve_left solid
  obtain ⟨rfl, length⟩ := eq_semicolon_of_recognize recognized
  have line : ∀ point ∈ rest, point ≠ CodePoint.ofChar '\n' := by
    have whole := take_spanLength (fun point : CodePoint => point ≠ '\n') rest
    rw [← length, List.take_length] at whole
    intro point member
    rw [whole] at member
    simpa using List.mem_takeWhile_imp member
  have nonempty : rest ≠ [] := by
    rintro rfl
    rw [List.getLast?_concat] at closed
    exact absurd closed (by decide)
  have comment := outlines_comment fun point member =>
    line point (List.dropLast_subset rest member)
  rw [List.dropLast_append_of_ne_nil (List.cons_ne_nil _ _),
    List.dropLast_cons_of_ne_nil nonempty]
  refine shorten ?_ comment
  rw [← List.dropLast_cons_of_ne_nil nonempty]
  exact List.dropLast_prefix _

/-- Only a closing parenthesis or a comment ends with a closing parenthesis. -/
theorem Outlines.getLast?_ne_closing {earlier : Outline} {lexeme : Lexeme}
    (outlines : Outlines text (earlier ++ [some lexeme]))
    (closes : ∀ point ∈ text.getLast?, point.isBlank = false)
    (other : lexeme ≠ .rightParenthesis) :
    text.getLast? ≠ some (CodePoint.ofChar ')') := by
  obtain ⟨front, first, rest, kind, rfl, recognized, solid, lexed, _⟩ :=
    outlines.unsnoc closes
  rw [List.getLast?_append_of_ne_nil _ (List.cons_ne_nil _ _)]
  by_cases isOpening : kind = .leftParenthesis
  · subst isOpening
    obtain ⟨rfl, length⟩ := eq_opening_of_recognize recognized
    obtain rfl := List.length_eq_zero_iff.mp length
    decide
  · have isClosing : kind ≠ .rightParenthesis := by
      rintro rfl
      exact other (Option.some.inj (Except.ok.inj lexed)).symm
    obtain ⟨last, ends, final⟩ :=
      endsIn_of_recognize recognized (isToken_of_lexemeOf lexed)
        ⟨isOpening, isClosing⟩
    rw [List.take_length] at ends
    rw [ends]
    rintro ⟨⟩
    exact absurd final (by decide)

/-! ## Words at the beginning -/

/-- The word that a plain symbol is; nothing for other lexemes. -/
def wordOf : Lexeme → Text
  | .atom (.symbol word false) => word
  | _ => []

theorem eq_of_wordOf {lexeme : Lexeme} {word : Text}
    (same : wordOf lexeme = word) (nonempty : word ≠ []) :
    lexeme = .atom (.symbol word false) := by
  rw [wordOf.eq_def] at same
  split at same
  · rw [same]
  · exact absurd same.symm nonempty

/-- The plain symbol at the beginning of an outline. -/
def openingWord : Outline → Text
  | some lexeme :: _ => wordOf lexeme
  | _ => []

/-- Neither a symbol nor a word goes on with this text. -/
def Breaks (text : Text) : Prop :=
  ∀ point ∈ text.head?, isSymbolPoint point = false ∧ point.isWord = false

theorem startsWith_append {pattern : Text}
    (points : ∀ point ∈ pattern, isSymbolPoint point = true)
    (breaks : Breaks rest) (text : Text) :
    Text.startsWith (text ++ rest) pattern = Text.startsWith text pattern := by
  induction text generalizing pattern with
  | nil =>
      cases pattern with
      | nil => rfl
      | cons first pattern =>
          cases rest with
          | nil => rfl
          | cons point rest =>
              have other : first ≠ point := by
                rintro rfl
                have inside := points first List.mem_cons_self
                rw [(breaks first rfl).1] at inside
                cases inside
              simp [Text.startsWith, List.isPrefixOf_cons_cons, other]
  | cons point text inductionHypothesis =>
      cases pattern with
      | nil => rfl
      | cons first pattern =>
          have later := inductionHypothesis (List.forall_mem_cons.mp points).2
          rw [Text.startsWith, Text.startsWith] at later ⊢
          rw [List.cons_append, List.isPrefixOf_cons_cons,
            List.isPrefixOf_cons_cons, later]

theorem startsOutsideWord_append (breaks : Breaks rest) (text : Text) :
    Text.startsOutsideWord (text ++ rest) = Text.startsOutsideWord text := by
  cases text with
  | nil =>
      cases rest with
      | nil => rfl
      | cons point rest =>
          show (!point.isWord) = true
          rw [(breaks point rfl).2]
          rfl
  | cons point text => rfl

/-- Whether a text starts with a word is decided before a delimiter. -/
theorem startsWithWord_append {pattern : Text}
    (points : ∀ point ∈ pattern, isSymbolPoint point = true)
    (breaks : Breaks rest) (text : Text) :
    Text.startsWithWord (text ++ rest) pattern =
      Text.startsWithWord text pattern := by
  rw [Text.startsWithWord, Text.startsWithWord, startsWith_append points breaks]
  cases starts : text.startsWith pattern with
  | false => rfl
  | true =>
      have inside : pattern.length ≤ text.length :=
        (List.isPrefixOf_iff_prefix.mp starts).length_le
      rw [List.drop_append_of_le_length inside, startsOutsideWord_append breaks]

theorem Outlines.breaks (outlines : Outlines text outlined)
    (outside : ∀ point ∈ text.head?, isSymbolPoint point = false) :
    Breaks text := by
  cases outlines with
  | nil => exact fun _ member => by cases member
  | @lexeme first rest kind count lexeme later recognized _ _ =>
      intro point member
      obtain rfl : first = point := Option.some.inj member
      exact ⟨outside first rfl,
        isWord_of_recognize recognized (outside first rfl)⟩

/-- A symbol at the beginning is cut off where no word goes on. -/
theorem Outlines.drop_symbol {word : Text}
    (outlines : Outlines text (some (.atom (.symbol word false)) :: later))
    (opens : ∀ point ∈ text.head?, point.isBlank = false) :
    ∃ rest, text = word ++ rest ∧ Breaks rest ∧ Outlines rest later ∧
      (∀ point ∈ word.head?, isSymbolStart point = true) ∧
      ∀ point ∈ word, isSymbolPoint point = true := by
  obtain ⟨first, rest, kind, count, rfl, recognized, _, lexed, following⟩ :=
    outlines.uncons opens
  obtain ⟨rfl, rfl⟩ : kind = .symbol ∧ word = first :: rest.take count := by
    simpa using lexemeOf_cases lexed
  obtain ⟨start, rfl⟩ := isSymbolStart_of_recognize recognized
  refine ⟨_, ?_, following.breaks ?_, following, ?_, ?_⟩
  · rw [List.cons_append, List.take_append_drop]
  · rw [← dropWhile_eq_drop]
    exact not_accepts_of_mem_head? isSymbolPoint rest
  · simpa using start
  · rw [take_spanLength]
    refine List.forall_mem_cons.mpr
      ⟨by rw [isSymbolPoint, start, Bool.true_or], ?_⟩
    exact fun point member => List.mem_takeWhile_imp member

theorem Outlines.symbol (start : isSymbolStart first = true)
    (points : ∀ point ∈ text, isSymbolPoint point = true) (breaks : Breaks rest)
    (outlines : Outlines rest later) :
    Outlines (first :: (text ++ rest))
      (some (.atom (.symbol (first :: text) false)) :: later) := by
  have stops : rest.takeWhile isSymbolPoint = [] := by
    cases rest with
    | nil => rfl
    | cons point rest =>
        rw [List.takeWhile_cons_of_neg]
        simpa using (breaks point rfl).1
  have span : spanLength isSymbolPoint (text ++ rest) = text.length := by
    rw [spanLength, List.takeWhile_append_of_pos points, stops, List.append_nil]
  have recognized := recognize_of_isSymbolStart (text ++ rest) start
  rw [span] at recognized
  refine .lexeme recognized ?_ ?_
  · rw [List.take_left]
    rfl
  · rwa [List.drop_left]

/-- A word that a plain symbol may be. -/
structure IsPlain (pattern : Text) : Prop where
  start : ∃ first rest, pattern = first :: rest ∧ isSymbolStart first = true
  points : ∀ point ∈ pattern, isSymbolPoint point = true

theorem startsWith_of_not_isSymbolStart {pattern : Text}
    (plain : IsPlain pattern) (other : isSymbolStart first = false) :
    Text.startsWith (first :: rest) pattern = false := by
  obtain ⟨mark, more, rfl, start⟩ := plain.start
  have apart : mark ≠ first := ne_of_isSymbolStart start other
  simp [Text.startsWith, List.isPrefixOf_cons_cons, apart]

/-- A text begins with a word where its outline does. -/
theorem Outlines.startsWith_eq (outlines : Outlines text outlined)
    (opens : ∀ point ∈ text.head?, point.isBlank = false) {pattern : Text}
    (plain : IsPlain pattern) :
    text.startsWith pattern = (openingWord outlined).startsWith pattern ∧
      text.startsWithWord pattern =
        (openingWord outlined).startsWithWord pattern := by
  have absent : Text.startsWith [] pattern = false := by
    obtain ⟨mark, more, rfl, _⟩ := plain.start
    rfl
  cases outlined with
  | nil =>
      rw [outlines.eq_nil_of_opens opens]
      exact ⟨rfl, rfl⟩
  | cons entry later =>
      obtain ⟨first, rest, kind, count, shape, recognized, _, lexed, _⟩ :=
        outlines.uncons opens
      by_cases isSymbol : kind = .symbol
      · subst isSymbol
        obtain rfl :
          entry = some (.atom (.symbol (first :: rest.take count) false)) := by
          simpa using lexemeOf_cases lexed
        obtain ⟨_, whole, breaks, _⟩ := outlines.drop_symbol opens
        rw [whole]
        exact ⟨startsWith_append plain.points breaks _,
          startsWithWord_append plain.points breaks _⟩
      · have noWord : openingWord (entry :: later) = [] := by
          rcases lexemeOf_cases lexed
            with ⟨_, rfl⟩ | ⟨_, rfl⟩ | ⟨_, rfl⟩ | ⟨same, _⟩ |
            ⟨_, leaf, rfl, other⟩
          · rfl
          · rfl
          · rfl
          · exact absurd same isSymbol
          · rw [openingWord, wordOf.eq_def]
            split
            · next word same => exact absurd (Lexeme.atom.inj same) (other word)
            · rfl
        have nowhere : Text.startsWith (first :: rest) pattern = false :=
          startsWith_of_not_isSymbolStart plain
            (isSymbolStart_eq_false_of_recognize recognized isSymbol)
        rw [noWord, shape, Text.startsWithWord, Text.startsWithWord,
          nowhere, absent]
        exact ⟨rfl, rfl⟩

end Lexer

end ModelAudit
