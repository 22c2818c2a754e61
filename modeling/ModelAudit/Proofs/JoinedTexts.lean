import ModelAudit.Proofs.DeclarationOrder

/-!
# Texts joined by a line feed

No lexeme of a text that is split into tokens goes on past its end, if a line
feed comes next: the line feed ends comments, numbers and words, and a literal
or a name between bars is closed before. So the tokens of two texts on lines of
their own are the tokens of the first and then those of the second, and the same
holds of their expressions.
-/

namespace ModelAudit

namespace Lexer

variable {first : CodePoint} {text rest : Text} {kind : LexemeClass}
  {count : Nat} {outlined later : Outline}

/-! ## How a lexeme begins and what it holds -/

/-- The code points that a lexeme of the class begins with. -/
def beginsWith : LexemeClass → CodePoint → Bool
  | .comment, point => point = ';'
  | .blank, point => point.isBlank
  | .leftParenthesis, point => point = '('
  | .rightParenthesis, point => point = ')'
  | .string, point => point = '"'
  | .quotedSymbol, point => point = '|'
  | .hexadecimal, point | .binary, point => point = '#'
  | .decimal, point | .numeral, point => point.isDigit
  | .keyword, point => point = ':'
  | .symbol, point => isSymbolStart point

/-- The first code point of a lexeme fits its class. -/
theorem beginsWith_of_recognize
    (recognized : recognize first rest = some (kind, count)) :
    beginsWith kind first = true := by
  have matched := matched_of_recognize recognized
  have guarded {condition : Prop} [Decidable condition] {measured : Option Nat}
      (found : (if condition then measured else none) = some count) :
        condition :=
    (Option.ite_none_right_eq_some.mp found).1
  cases kind with
  | blank => exact guarded matched
  | comment | leftParenthesis | rightParenthesis | string | keyword =>
      exact decide_eq_true (guarded matched)
  | quotedSymbol =>
      rw [recognizerOf, quotedSymbol_eq] at matched
      exact decide_eq_true (guarded matched)
  | hexadecimal | binary =>
      rw [recognizerOf, based_eq] at matched
      exact decide_eq_true (guarded matched)
  | decimal =>
      rw [recognizerOf, decimal_eq] at matched
      exact guarded matched
  | numeral => exact guarded matched
  | symbol => exact guarded matched

theorem kind_of_quote (recognized : recognize '"' rest = some (kind, count)) :
    kind = .string := by
  have begins := beginsWith_of_recognize recognized
  cases kind with
  | string => rfl
  | comment | blank | leftParenthesis | rightParenthesis | quotedSymbol
  | hexadecimal | binary
  | decimal | numeral | keyword | symbol => exact absurd begins (by decide)

theorem kind_of_bar (recognized : recognize '|' rest = some (kind, count)) :
    kind = .quotedSymbol := by
  have begins := beginsWith_of_recognize recognized
  cases kind with
  | quotedSymbol => rfl
  | comment | blank | leftParenthesis | rightParenthesis | string | hexadecimal
  | binary
  | decimal | numeral | keyword | symbol => exact absurd begins (by decide)

theorem closingQuote_of_recognize
    (recognized : recognize '"' rest = some (.string, count)) :
    closingQuote rest = some count :=
  (Option.ite_none_right_eq_some.mp (show string '"' rest = some count from
    matched_of_recognize recognized)).2

theorem isSymbolPoint_of_isDigit {point : CodePoint}
    (digit : point.isDigit = true) :
    isSymbolPoint point = true := by
  rw [isSymbolPoint, digit, Bool.or_true]

theorem isSymbolPoint_of_based {letter : CodePoint} {digit : CodePoint → Bool}
    (letterPoint : isSymbolPoint letter = true)
    (digitPoint : ∀ point, digit point = true → isSymbolPoint point = true)
    (matched : based letter digit first rest = some count) :
    ∀ point ∈ rest.take count, isSymbolPoint point = true := by
  rw [based_eq] at matched
  obtain ⟨_, marked⟩ := Option.ite_none_right_eq_some.mp matched
  obtain ⟨digits, length, rfl, some, rfl⟩ := afterMark_eq_some_iff.mp marked
  rw [List.take_succ_cons]
  exact List.forall_mem_cons.mpr
    ⟨letterPoint, fun point member => digitPoint point
      ((take_of_someOf some).2 point member)⟩

/-- Lexemes other than white space, comments, literals and names between bars go
on with code points of symbols only. -/
theorem isSymbolPoint_of_recognize
    (recognized : recognize first rest = some (kind, count))
    (solid : first.isBlank = false) (noMark : first ≠ ';')
    (noQuote : first ≠ '"')
    (noBar : first ≠ '|') :
    ∀ point ∈ rest.take count, isSymbolPoint point = true := by
  intro point member
  have begins := beginsWith_of_recognize recognized
  have matched := matched_of_recognize recognized
  cases kind with
  | blank =>
      rw [show first.isBlank = true from begins] at solid
      cases solid
  | comment => exact absurd (of_decide_eq_true begins) noMark
  | string => exact absurd (of_decide_eq_true begins) noQuote
  | quotedSymbol => exact absurd (of_decide_eq_true begins) noBar
  | leftParenthesis =>
      obtain ⟨_, rfl⟩ := eq_opening_of_recognize recognized
      cases member
  | rightParenthesis =>
      obtain ⟨_, rfl⟩ := eq_closing_of_recognize recognized
      cases member
  | hexadecimal =>
      exact isSymbolPoint_of_based (by decide)
        (fun _ => isSymbolPoint_of_isHexDigit) matched _ member
  | binary =>
      exact isSymbolPoint_of_based (by decide)
        (fun _ => isSymbolPoint_of_isBit) matched _ member
  | decimal =>
      rcases points_of_decimal matched _ (List.mem_cons_of_mem _ member)
        with digit | rfl
      · exact isSymbolPoint_of_isDigit digit
      · decide
  | numeral =>
    exact isSymbolPoint_of_isDigit ((isDigit_of_numeral matched).2 _ member)
  | keyword =>
      obtain ⟨_, some⟩ := Option.ite_none_right_eq_some.mp matched
      exact (take_of_someOf some).2 _ member
  | symbol =>
      obtain ⟨_, rfl⟩ := isSymbolStart_of_recognize recognized
      rw [take_spanLength] at member
      exact List.mem_takeWhile_imp member

/-- Only white space, literals and names between bars may hold a line feed. -/
theorem lineFeed_notMem_of_recognize
    (recognized : recognize first rest = some (kind, count))
    (solid : first.isBlank = false) (noQuote : first ≠ '"')
    (noBar : first ≠ '|') :
    CodePoint.ofChar '\n' ∉ rest.take count := by
  intro member
  by_cases isMark : first = ';'
  · subst isMark
    rw [recognize_semicolon] at recognized
    obtain ⟨rfl, rfl⟩ := Prod.mk.inj (Option.some.inj recognized)
    rw [take_spanLength] at member
    exact absurd (List.mem_takeWhile_imp member) (by decide)
  · exact absurd (isSymbolPoint_of_recognize recognized solid isMark noQuote
      noBar _ member) (by decide)

/-! ## Lexemes before a line feed -/

/-- A text begins with some lexeme if an initial part of it does. -/
theorem isSome_recognize_append
    (recognized : recognize first rest = some (kind, count)) (more : Text) :
    (recognize first (rest ++ more)).isSome = true := by
  obtain ⟨recognizer, member, matched⟩ := mem_table_of_recognize recognized
  have stable := stable_recognizerOf kind first
  rw [recognizerOf_of_mem_table _ member] at stable
  have cut : (rest ++ more).take rest.length = rest := List.take_left
  rw [recognize, List.findSome?_isSome_iff]
  refine ⟨(kind, recognizer), member, ?_⟩
  rw [Option.isSome_map]
  exact stable.found (cut.symm ▸ matched)

/-- A literal that is closed in a text is closed at the same quote in a longer
one, unless two quotes end the literal and begin the next. -/
theorem closingQuote_append (closed : closingQuote text = some count)
    (following : Outlines (text.drop count) later) (tail : Text) :
    closingQuote (text ++ CodePoint.ofChar '\n' :: tail) = some count := by
  induction text using closingQuote.induct generalizing count with
  | case1 => cases closed
  | case2 => exact closed
  | case3 point other =>
      rw [closingQuote, if_neg other] at closed
      cases closed
  | case4 rest inductionHypothesis =>
      rw [closingQuote, if_pos rfl, if_pos rfl] at closed
      cases inner : closingQuote rest with
      | some length =>
          rw [inner] at closed
          obtain rfl : length + 2 = count := Option.some.inj closed
          have kept := inductionHypothesis inner following
          rw [List.cons_append, List.cons_append, closingQuote, if_pos rfl,
            if_pos rfl, kept]
          rfl
      | none =>
          -- The second quote begins a literal that is not closed.
          rw [inner] at closed
          obtain rfl : 1 = count := Option.some.inj closed
          cases following with
          | lexeme recognized _ _ =>
              obtain rfl := kind_of_quote recognized
              have found := closingQuote_of_recognize recognized
              rw [inner] at found
              cases found
  | case5 next rest other =>
      rw [closingQuote, if_pos rfl, if_neg other] at closed
      rw [List.cons_append, List.cons_append, closingQuote, if_pos rfl,
        if_neg other, closed]
  | case6 point next rest other inductionHypothesis =>
      rw [closingQuote, if_neg other] at closed
      obtain ⟨length, inner, rfl⟩ := Option.map_eq_some_iff.mp closed
      have kept := inductionHypothesis inner following
      rw [List.cons_append] at kept
      rw [List.cons_append, List.cons_append, closingQuote, if_neg other, kept]
      rfl

/-- A name between bars ends at its bar whatever follows. -/
theorem quotedSymbol_append (matched : quotedSymbol first rest = some count)
    (more : Text) :
    quotedSymbol first (rest ++ more) = some count := by
  rw [quotedSymbol_eq, Option.ite_none_right_eq_some] at matched ⊢
  obtain ⟨isBar, spanned⟩ := matched
  obtain ⟨length, closed, rfl⟩ := Option.map_eq_some_iff.mp spanned
  obtain ⟨after, _, shape, zero, rfl⟩ := afterMark_eq_some_iff.mp closed
  have inside : spanLength isBarContent rest < rest.length := by
    by_contra outside
    rw [List.drop_of_length_le (Nat.le_of_not_lt outside)] at shape
    cases shape
  have span : spanLength isBarContent (rest ++ more) =
      spanLength isBarContent rest := by
    have stops : (rest.takeWhile isBarContent).length ≠ rest.length :=
      Nat.ne_of_lt inside
    rw [spanLength, List.takeWhile_append, if_neg stops, spanLength]
  refine ⟨isBar, Option.map_eq_some_iff.mpr ⟨_, afterMark_eq_some_iff.mpr
    ⟨after ++ more, _, ?_, zero, rfl⟩, by rw [span]⟩⟩
  rw [span, List.drop_append_of_le_length inside.le, shape]
  rfl

/-- A lexeme is the same with a text behind it, if no lexeme there goes on into
that text. -/
theorem recognize_of_inside
    (recognized : recognize first rest = some (kind, count)) {more : Text}
    (inside : ∀ {otherKind length}, recognize first (rest ++ more) =
        some (otherKind, length) →
      length ≤ rest.length) :
    recognize first (rest ++ more) = some (kind, count) := by
  obtain ⟨⟨otherKind, length⟩, found⟩ :=
    Option.isSome_iff_exists.mp (isSome_recognize_append recognized more)
  have initial :=
    recognize_of_initial found (List.prefix_append _ _) (inside found)
  rwa [← recognized.symm.trans initial] at found

/-- A lexeme that goes on into a text that follows holds the first code point of
that text. -/
theorem mem_take_of_lt {point : CodePoint} {more : Text} {length : Nat}
    (outside : rest.length < length) :
    point ∈ (rest ++ point :: more).take length := by
  have longer : (rest ++ [point]).length ≤ length := by
    rw [List.length_append, List.length_singleton]
    omega
  have passed : rest ++ [point] <+: (rest ++ point :: more).take length :=
    List.prefix_take_iff.mpr ⟨⟨more, (List.append_cons _ _ _).symm⟩, longer⟩
  exact passed.subset List.mem_concat_self

/-- A lexeme is the same if a line feed and another text follow. -/
theorem recognize_append
    (recognized : recognize first rest = some (kind, count))
    (solid : first.isBlank = false)
    (following : Outlines (rest.drop count) later) (tail : Text) :
    recognize first (rest ++ CodePoint.ofChar '\n' :: tail) =
      some (kind, count) := by
  refine recognize_of_inside recognized fun {otherKind length} found => ?_
  have bounded := le_length_of_recognize recognized
  by_cases isQuote : first = '"'
  · subst isQuote
    obtain rfl := kind_of_quote recognized
    obtain rfl := kind_of_quote found
    have longer :=
      closingQuote_append (closingQuote_of_recognize recognized) following tail
    obtain rfl :=
      Option.some.inj (longer.symm.trans (closingQuote_of_recognize found))
    exact bounded
  by_cases isBar : first = '|'
  · subst isBar
    obtain rfl := kind_of_bar recognized
    obtain rfl := kind_of_bar found
    have longer := quotedSymbol_append (matched_of_recognize recognized)
      (CodePoint.ofChar '\n' :: tail)
    obtain rfl :=
      Option.some.inj (longer.symm.trans (matched_of_recognize found))
    exact bounded
  · by_contra outside
    exact lineFeed_notMem_of_recognize found solid isQuote isBar
      (mem_take_of_lt (Nat.lt_of_not_le outside))

/-! ## Outlines of joined texts -/

theorem Outlines.blank (outlines : Outlines rest later)
    (isBlank : first.isBlank = true) :
    Outlines (first :: rest) later := by
  refine .lexeme (recognize_of_isBlank isBlank) rfl ?_
  rw [← dropWhile_eq_drop]
  exact outlines.stripLeft

theorem Outlines.blanks (outlines : Outlines rest later)
    (blank : ∀ point ∈ text, point.isBlank = true) :
    Outlines (text ++ rest) later := by
  induction text with
  | nil => exact outlines
  | cons first others inductionHypothesis =>
      obtain ⟨isBlank, others⟩ := List.forall_mem_cons.mp blank
      exact (inductionHypothesis others).blank isBlank

/-- A text of its own line has its outline, whatever text comes on the next
line. -/
theorem Outlines.join (outlines : Outlines text outlined)
    (following : Outlines rest later) :
    Outlines (text ++ CodePoint.ofChar '\n' :: rest) (outlined ++ later) := by
  induction outlines with
  | nil => exact following.blank (by decide)
  | @lexeme first more kind count lexeme inner recognized lexed outlines
      inductionHypothesis =>
      have bounded := le_length_of_recognize recognized
      by_cases blank : kind = .blank
      · subst blank
        obtain ⟨isBlank, rfl⟩ := isBlank_of_recognize recognized
        rw [← List.take_append_drop (spanLength CodePoint.isBlank more) more,
          take_spanLength, List.append_assoc, List.cons_append,
          List.append_assoc]
        refine (Outlines.blanks inductionHypothesis fun point member =>
          ?_).blank isBlank
        exact List.mem_takeWhile_imp member
      · have solid := isBlank_eq_false_of_recognize recognized blank
        rw [List.append_assoc, List.cons_append]
        refine .lexeme (recognize_append recognized solid outlines rest) ?_ ?_
        · rwa [List.take_append_of_le_length bounded]
        · rwa [List.drop_append_of_le_length bounded]

end Lexer

/-! ## Expressions of joined texts -/

namespace Session

theorem encloses_of_read {text : Text} {expressions : List SExpr}
    (read : readExpressions text = .ok expressions) :
    Encloses text .nothing expressions := by
  obtain ⟨tokens, tokenized, _⟩ := Outcome.bind_eq_ok.mp read
  have spells := (readExpressions_iff_balanced tokenized).2.1 expressions read
  rw [Encloses, Outcome.toOption_eq_some_iff.mpr tokenized, Option.map_some,
    SolverOutput.Enclosure.enclose, SExpr.lexemesOfAll, spells, List.map_map]
  rfl

/-- Texts on lines of their own have the expressions of the first and then those
of the second. -/
theorem Encloses.join {first second : Text} {expressions others : List SExpr}
    (encloses : Encloses first .nothing expressions)
    (othersEnclose : Encloses second .nothing others) :
    Encloses (first ++ CodePoint.ofChar '\n' :: second) .nothing
      (expressions ++ others) := by
  obtain ⟨tokens, tokenized, lexemes⟩ := Option.map_eq_some_iff.mp encloses
  obtain ⟨otherTokens, otherTokenized, otherLexemes⟩ :=
    Option.map_eq_some_iff.mp othersEnclose
  obtain ⟨outlines, reduced⟩ :=
    Lexer.outlines_of_tokenize (Outcome.toOption_eq_some_iff.mp tokenized)
  obtain ⟨otherOutlines, otherReduced⟩ :=
    Lexer.outlines_of_tokenize (Outcome.toOption_eq_some_iff.mp otherTokenized)
  obtain ⟨joined, joinedTokenized, joinedLexemes⟩ :=
    (outlines.join otherOutlines).tokenize
  rw [List.reduceOption_append, reduced, otherReduced, lexemes, otherLexemes]
    at joinedLexemes
  rw [Encloses, Outcome.toOption_eq_some_iff.mpr joinedTokenized,
    Option.map_some, joinedLexemes]
  exact congrArg some (SExpr.lexemesOfAll_append expressions others).symm

end Session

end ModelAudit
