import ModelAudit.Proofs.JoinedTexts
import ModelAudit.Proofs.LexemePatterns
import ModelAudit.Proofs.RemovedWrappers
import ModelAudit.Proofs.StringLiterals
import ModelAudit.Proofs.TokenPlaces

/-!
# Rendered expressions read back

The text of an expression that was read is read as this expression again, up to
positions, unless a string literal in it holds a backslash. Each atom is written
as its class demands, and the space or the parenthesis that comes after it ends
it, so the tokens of the text are the lexemes of the expression, one for one.
-/

namespace ModelAudit

/-- No string literal holds a backslash, which would be read as an escape. -/
def Atom.FreeOfEscapes : Atom → Prop
  | .string contents => CodePoint.ofChar '\\' ∉ contents
  | _ => True

instance : DecidablePred Atom.FreeOfEscapes
  | .string contents =>
    inferInstanceAs (Decidable (CodePoint.ofChar '\\' ∉ contents))
  | .numeral _ | .decimal _ | .hexadecimal _ | .binary _ | .symbol _ _
  | .keyword _ =>
    .isTrue trivial

namespace Lexer

variable {first : CodePoint} {rest contents written tail : Text}
  {kind : LexemeClass} {lexeme : Lexeme} {leaf : Atom} {later : Outline}

/-! ## Literals as they are rendered -/

/-- Doubling the quotes is a way to write a text without backslashes. -/
theorem encodes_doubleQuotes (free : CodePoint.ofChar '\\' ∉ contents) :
    Encodes contents (Atom.doubleQuotes contents) := by
  induction contents with
  | nil => exact .nil
  | cons point contents inductionHypothesis =>
      obtain ⟨other, laterFree⟩ := not_or.mp (mt List.mem_cons.mpr free)
      have encodes := inductionHypothesis laterFree
      by_cases isQuote : point = '"'
      · subst isQuote
        rw [doubleQuotes_quote]
        exact .cons (.twoQuotes rfl) encodes
      · rw [doubleQuotes_cons isQuote]
        exact .cons (.itself isQuote (Ne.symm other)) encodes

/-- The quotes inside a literal come in pairs, so it is the last one that closes
it. -/
theorem closingQuote_doubleQuotes (contents : Text)
    (ends : tail.head? ≠ some (CodePoint.ofChar '"')) :
    closingQuote (Atom.doubleQuotes contents ++ CodePoint.ofChar '"' :: tail) =
      some ((Atom.doubleQuotes contents).length + 1) := by
  induction contents with
  | nil => exact closingQuote_quote ends
  | cons point contents inductionHypothesis =>
      by_cases isQuote : point = '"'
      · subst isQuote
        rw [doubleQuotes_quote, List.cons_append, List.cons_append,
          closingQuote, if_pos rfl, if_pos rfl, inductionHypothesis]
        rfl
      · rw [doubleQuotes_cons isQuote, List.cons_append,
          closingQuote_cons isQuote, inductionHypothesis]
        rfl

/-! ## Lexemes with a text behind them -/

/-- The text goes on no lexeme that ends before it. -/
def Separates (text : Text) : Prop :=
  ∀ point ∈ text.head?, isSymbolPoint point = false ∧ point ≠ '"'

theorem separates_space (text : Text) :
    Separates (CodePoint.ofChar ' ' :: text) := by
  rintro _ ⟨⟩
  decide

theorem separates_closing (text : Text) :
    Separates (CodePoint.ofChar ')' :: text) := by
  rintro _ ⟨⟩
  decide

theorem separates_nil : Separates [] := by
  rintro _ ⟨⟩

theorem Separates.head?_ne_quote (separates : Separates tail) :
    tail.head? ≠ some (CodePoint.ofChar '"') :=
  fun isQuote => (separates _ isQuote).2 rfl

/-- A token is recognized as far as it goes, whatever separated text follows
it. -/
theorem recognize_of_separates
    (recognized : recognize first rest = some (kind, rest.length))
    (token : kind ≠ .blank ∧ kind ≠ .comment) (separates : Separates tail) :
    recognize first (rest ++ tail) = some (kind, rest.length) := by
  refine recognize_of_inside recognized fun {otherKind length} found => ?_
  by_cases isQuote : first = '"'
  · subst isQuote
    obtain rfl := kind_of_quote recognized
    obtain rfl := kind_of_quote found
    obtain ⟨contents, shape⟩ :=
      measures_closingQuote.matched (closingQuote_of_recognize recognized)
    rw [List.take_length] at shape
    have closed := closingQuote_doubleQuotes contents separates.head?_ne_quote
    have whole :
        rest ++ tail = Atom.doubleQuotes contents ++ CodePoint.ofChar '"' ::
          tail := by
      rw [shape]
      exact List.append_assoc _ _ _
    rw [← whole, closingQuote_of_recognize found] at closed
    obtain rfl := Option.some.inj closed
    rw [shape, List.length_append]
    exact Nat.le_refl _
  by_cases isBar : first = '|'
  · subst isBar
    obtain rfl := kind_of_bar recognized
    obtain rfl := kind_of_bar found
    have longer := quotedSymbol_append (matched_of_recognize recognized) tail
    obtain rfl :=
      Option.some.inj (longer.symm.trans (matched_of_recognize found))
    exact Nat.le_refl _
  · have solid := isBlank_eq_false_of_recognize recognized token.1
    have noMark : first ≠ ';' := by
      rintro rfl
      rw [recognize_semicolon] at recognized
      exact token.2 (Prod.mk.inj (Option.some.inj recognized)).1.symm
    cases tail with
    | nil =>
        rw [List.append_nil] at found
        exact le_length_of_recognize found
    | cons point tail =>
        by_contra outside
        have inside :=
          isSymbolPoint_of_recognize found solid noMark isQuote isBar point
            (mem_take_of_lt (Nat.lt_of_not_le outside))
        rw [(separates point rfl).1] at inside
        cases inside

theorem recognize_closing (rest : Text) :
    recognize ')' rest = some (.rightParenthesis, 0) := by
  have notMark : CodePoint.ofChar ')' ≠ ';' := by decide
  have notBlank : (CodePoint.ofChar ')').isBlank = false := by decide
  have notOpening : CodePoint.ofChar ')' ≠ '(' := by decide
  simp [recognize, table, comment, blank, single, notMark, notBlank, notOpening]

theorem Outlines.opening (outlines : Outlines rest later) :
    Outlines ('(' :: rest) (some .leftParenthesis :: later) :=
  .lexeme (recognize_opening rest) rfl outlines

theorem Outlines.closing (outlines : Outlines rest later) :
    Outlines (')' :: rest) (some .rightParenthesis :: later) :=
  .lexeme (recognize_closing rest) rfl outlines

theorem Writes.outlines (writes : Writes written lexeme)
    (separates : Separates tail) (outlines : Outlines tail later) :
    Outlines (written ++ tail) (some lexeme :: later) := by
  obtain ⟨first, rest, kind, rfl, recognized, lexed⟩ := writes
  have token := isToken_of_lexemeOf lexed
  have longer := recognize_of_separates recognized token separates
  have whole :
      Outlines (first :: (rest ++ tail))
        (noted kind (some lexeme) ++ later) := by
    refine .lexeme longer ?_ ?_
    · rwa [List.take_left]
    · rwa [List.drop_left]
  rwa [noted, if_neg token.1] at whole

/-! ## Atoms as they are rendered -/

theorem inside_bars (name : Text) : inside ("|" ++ name ++ "|") = name := by
  show (name ++ [CodePoint.ofChar '|']).dropLast = name
  exact List.dropLast_concat

theorem writes_string (free : CodePoint.ofChar '\\' ∉ contents) :
    Writes (Atom.text (.string contents)) (.atom (.string contents)) := by
  have encodes := encodes_doubleQuotes free
  have shape :
      Atom.text (.string contents) = literal (Atom.doubleQuotes contents) := rfl
  refine ⟨'"', Atom.doubleQuotes contents ++ "\"", .string, rfl, ?_, ?_⟩
  · rw [List.length_append]
    exact recognize_quote (encodes.closingQuote (by simp))
  · rw [lexemeOf, shape, inside_literal, encodes.read, Outcome.ok_bind]
    rfl

/-- An atom is rendered as it was written. Only a literal may be rendered in
another way than it was written, with each quote doubled. -/
theorem Writes.text (writes : Writes written (.atom leaf))
    (free : leaf.FreeOfEscapes) :
    Writes leaf.text (.atom leaf) := by
  obtain ⟨first, rest, kind, rfl, recognized, lexed⟩ := writes
  have matched := (begins_of_recognize recognized).matched
  rw [List.take_length] at matched
  suffices rendered : (∃ contents, leaf = .string contents) ∨
      leaf.text = first :: rest by
    rcases rendered with ⟨contents, rfl⟩ | same
    · exact writes_string free
    · rw [same]
      exact ⟨first, rest, kind, rfl, recognized, lexed⟩
  cases kind with
  | comment | blank | leftParenthesis | rightParenthesis => cases lexed
  | string =>
      obtain ⟨contents, _, lexed⟩ := Outcome.bind_eq_ok.mp lexed
      cases lexed
      exact .inl ⟨contents, rfl⟩
  | quotedSymbol =>
      obtain ⟨name, shape, _⟩ := matched
      cases lexed
      rw [shape, inside_bars]
      exact .inr rfl
  | hexadecimal | binary =>
      obtain ⟨digits, shape, _⟩ := matched
      cases lexed
      rw [shape]
      exact .inr rfl
  | decimal | numeral | keyword | symbol =>
      cases lexed
      exact .inr rfl

end Lexer

open Lexer

/-! ## Expressions as they are rendered -/

/-- The text of the atom is a lexeme that stands for the atom. -/
def Atom.ReadsBack (leaf : Atom) : Prop :=
  Writes leaf.text (.atom leaf)

namespace SExpr

mutual

/-- The text of an expression is scanned as its lexemes wherever a separator
follows. -/
theorem outlines_text : (expression : SExpr) →
    expression.Everywhere Atom.ReadsBack →
    {tail : Text} → {later : Outline} → Separates tail → Outlines tail later →
      Outlines (expression.text ++ tail)
        ((lexemesOfAll [expression]).map some ++ later)
  | .atom leaf position, each, tail, later, separates, outlines =>
      each.leaf.outlines separates outlines
  | .list items position, each, tail, later, separates, outlines => by
      have inner :=
        outlines_itemsText items each.items
          (separates_closing tail) outlines.closing
      rw [lexemesOfAll_list, List.map_cons, List.map_append, text,
        List.append_assoc, List.append_assoc, List.cons_append,
        List.append_assoc]
      exact inner.opening

/-- The texts of items with spaces between them are scanned as the lexemes of
the items. -/
theorem outlines_itemsText : (items : List SExpr) →
    (∀ item ∈ items, item.Everywhere Atom.ReadsBack) → {tail : Text} →
      {later : Outline} →
      Separates tail → Outlines tail later →
        Outlines (itemsText items ++ tail)
          ((lexemesOfAll items).map some ++ later)
  | [], each, tail, later, separates, outlines => outlines
  | [item], each, tail, later, separates, outlines =>
      outlines_text item (each item List.mem_cons_self) separates outlines
  | item :: next :: items, each, tail, later, separates, outlines => by
      obtain ⟨here, others⟩ := List.forall_mem_cons.mp each
      have following :=
        outlines_itemsText (next :: items) others separates outlines
      have spaced : Outlines (CodePoint.ofChar ' ' :: _) _ :=
        following.blank (by decide)
      have whole := outlines_text item here (separates_space _) spaced
      rw [← List.singleton_append, lexemesOfAll_append, List.map_append,
        List.append_assoc]
      show Outlines (item.text ++ " " ++ itemsText (next :: items) ++ tail) _
      rw [List.append_assoc, List.append_assoc]
      exact whole

end

/-- The tokens of a rendered expression are its lexemes, and nothing else. -/
theorem encloses_text {expression : SExpr}
    (each : expression.Everywhere Atom.ReadsBack) :
    Session.Encloses expression.text .nothing [expression] := by
  have outlines := outlines_text expression each separates_nil .nil
  rw [List.append_nil, List.append_nil] at outlines
  obtain ⟨tokens, tokenized, lexemes⟩ := outlines.tokenize
  rw [SolverOutput.reduceOption_map_some] at lexemes
  rw [Session.Encloses, tokenized]
  exact congrArg some lexemes

/-- The expression stands in a text that is read, at any depth. -/
def IsRead (expression : SExpr) : Prop :=
  ∃ text expressions whole, readExpressions text = .ok expressions ∧
    whole ∈ expressions ∧
    expression.PartOf whole

theorem IsRead.writes {expression : SExpr} (isRead : expression.IsRead) :
    expression.Everywhere fun leaf =>
      ∃ written, Writes written (.atom leaf) := by
  obtain ⟨text, expressions, whole, read, member, within⟩ := isRead
  obtain ⟨tokens, tokenized, grouped⟩ := Outcome.bind_eq_ok.mp read
  refine within.everywhere
    (Reader.everywhere_of_mem_group ?_ grouped whole member)
  intro token inside leaf isLeaf
  obtain ⟨written, writes, _⟩ :=
    (standsIn_of_tokenize tokenized token inside).written
  exact ⟨written, isLeaf ▸ writes⟩

theorem exists_of_text {expression : SExpr} (isRead : expression.IsRead)
    (free : expression.Everywhere Atom.FreeOfEscapes) :
    ∃ again, readExpressions expression.text = .ok [again] ∧
      again.bare = expression.bare := by
  have each : expression.Everywhere Atom.ReadsBack :=
    (isRead.writes.both free).weaken fun leaf ⟨⟨_, writes⟩, free⟩ =>
      writes.text free
  obtain ⟨expressions, read, same⟩ :=
    Session.exists_of_encloses (encloses_text each)
  obtain ⟨again, rfl, same⟩ := List.map_eq_singleton_iff.mp same
  exact ⟨again, read, List.singleton_inj.mp same⟩

/-- The text of an expression that was read is read as this expression and
nothing else, and no other expression that was read has this text. -/
theorem text_readsBack {expression : SExpr} (isRead : expression.IsRead)
    (free : expression.Everywhere Atom.FreeOfEscapes) :
    (∃ again, readExpressions expression.text = .ok [again] ∧
      again.bare = expression.bare) ∧
      ∀ other : SExpr, other.IsRead → other.Everywhere Atom.FreeOfEscapes →
        other.text = expression.text → other.bare = expression.bare := by
  obtain ⟨again, read, same⟩ := exists_of_text isRead free
  refine ⟨⟨again, read, same⟩, fun other otherRead otherFree sameText => ?_⟩
  obtain ⟨otherAgain, readOther, otherSame⟩ :=
    exists_of_text otherRead otherFree
  rw [sameText, read] at readOther
  obtain rfl : again = otherAgain :=
    List.singleton_inj.mp (Except.ok.inj readOther)
  exact otherSame.symm.trans same

/-- Tokens without spaces between them, a name between bars with a line feed and
a parenthesis, a quote in a literal, and an escape. -/
def crowdedAtoms : Text :=
  "; on\n(f|a\n)|\"x\"\"y\"(:k 1.50\"\\u\x7b41\x7d\")#b0)"

def crowdedList : SExpr :=
  .list [.atom (.symbol "f" false) ⟨2, 2, 6⟩,
    .atom (.symbol "a\n)" true) ⟨2, 3, 7⟩, .atom (.string "x\"y") ⟨3, 3, 12⟩,
    .list [.atom (.keyword ":k") ⟨3, 10, 19⟩,
      .atom (.decimal "1.50") ⟨3, 13, 22⟩, .atom (.string "A") ⟨3, 17, 26⟩]
        ⟨3, 9, 18⟩,
    .atom (.binary "0") ⟨3, 26, 35⟩] ⟨2, 1, 5⟩

/-- The rendered text has other tokens next to each other, and no escape. -/
theorem crowdedList_readsBack :
    crowdedList.IsRead ∧ crowdedList.Everywhere Atom.FreeOfEscapes ∧
      crowdedList.text = "(f |a\n)| \"x\"\"y\" (:k 1.50 \"A\") #b0)" ∧
      ∃ again, readExpressions crowdedList.text = .ok [again] ∧
        again.bare = crowdedList.bare := by
  have tokenized : tokenize crowdedAtoms = .ok
      [⟨.leftParenthesis, ⟨2, 1, 5⟩⟩, ⟨.atom (.symbol "f" false), ⟨2, 2, 6⟩⟩,
        ⟨.atom (.symbol "a\n)" true), ⟨2, 3, 7⟩⟩,
        ⟨.atom (.string "x\"y"), ⟨3, 3, 12⟩⟩,
        ⟨.leftParenthesis, ⟨3, 9, 18⟩⟩, ⟨.atom (.keyword ":k"), ⟨3, 10, 19⟩⟩,
        ⟨.atom (.decimal "1.50"), ⟨3, 13, 22⟩⟩,
        ⟨.atom (.string "A"), ⟨3, 17, 26⟩⟩,
        ⟨.rightParenthesis, ⟨3, 25, 34⟩⟩, ⟨.atom (.binary "0"), ⟨3, 26, 35⟩⟩,
        ⟨.rightParenthesis, ⟨3, 29, 38⟩⟩] :=
    Outcome.toOption_eq_some_iff.mp (by decide +kernel)
  have isRead : crowdedList.IsRead :=
    ⟨crowdedAtoms, [crowdedList], crowdedList,
      Outcome.bind_eq_ok.mpr ⟨_, tokenized, rfl⟩,
      List.mem_singleton_self _, .whole⟩
  have free : crowdedList.Everywhere Atom.FreeOfEscapes := by
    refine .list ?_
    simp only [List.forall_mem_cons, List.not_mem_nil, false_imp_iff,
      implies_true, and_true]
    refine ⟨.atom (by decide), .atom (by decide), .atom (by decide), .list ?_,
      .atom (by decide)⟩
    simp only [List.forall_mem_cons, List.not_mem_nil, false_imp_iff,
      implies_true, and_true]
    exact ⟨.atom (by decide), .atom (by decide), .atom (by decide)⟩
  exact ⟨isRead, free, by decide +kernel, (text_readsBack isRead free).1⟩

end SExpr

end ModelAudit
