import ModelAudit.Proofs.JoinedFormulas

/-!
# Layout of formulas

A session reads a formula by its lexemes alone. Blanks, line breaks and comments
between the tokens decide where a fault is reported and nothing else: texts with
the same lexemes give the same formula and the same symbols, or faults of one
kind after the same declarations.
-/

namespace ModelAudit

/-- Tokens with the same lexemes are grouped into expressions that differ in
their positions only. -/
theorem Reader.group_of_sameLexemes {tokens others : List Token}
    (same : tokens.map Token.lexeme = others.map Token.lexeme) :
    (group tokens).toOption.map (List.map SExpr.bare) =
      (group others).toOption.map (List.map SExpr.bare) := by
  rw [← groupLexemes?_of_tokens, ← groupLexemes?_of_tokens, same]

namespace Session

variable (session : Session)

/-- Texts with the same lexemes are read as the same formula and leave the same
session, or are rejected with faults of the same kind and leave the same
session. -/
theorem readFormula_of_sameLexemes {first second : Text}
    {tokens others : List Token} (tokenized : tokenize first = .ok tokens)
    (otherTokenized : tokenize second = .ok others)
    (same : tokens.map Token.lexeme = others.map Token.lexeme) :
    AlikeResults (session.readFormula first) (session.readFormula second) := by
  have sameGroups := Reader.group_of_sameLexemes same
  have read : readExpressions first = Reader.group tokens := by
    rw [readExpressions, tokenized, Outcome.ok_bind]
  have otherRead : readExpressions second = Reader.group others := by
    rw [readExpressions, otherTokenized, Outcome.ok_bind]
  cases grouped : Reader.group tokens with
  | error fault =>
      cases otherGrouped : Reader.group others with
      | error other =>
          rw [readFormula, readFormula, read, otherRead, grouped, otherGrouped]
          exact ⟨alike_error rfl, rfl⟩
      | ok otherCommands =>
          rw [grouped, otherGrouped] at sameGroups
          cases sameGroups
  | ok commands =>
      cases otherGrouped : Reader.group others with
      | error other =>
          rw [grouped, otherGrouped] at sameGroups
          cases sameGroups
      | ok otherCommands =>
          rw [grouped, otherGrouped] at sameGroups
          rw [readFormula_eq_readFormulaCommands session (read.trans grouped),
            readFormula_eq_readFormulaCommands session
              (otherRead.trans otherGrouped)]
          exact readFormulaCommands_of_sameBare session
            (Option.some.inj sameGroups)

/-- A declaration, and an assertion of a sum, on one line. -/
def crowdedText : Text :=
  "(declare-const |a\nb| Int)(assert(+ |a\nb| 1))"

def spreadText : Text :=
  "; (set-logic ALL)\n(declare-const\n  |a\nb| ; a \"name\"\n  Int )\n\n( assert ( + |a\nb| 1 ) ) ;"

/-- Both texts are rejected for the assertion, at different places, and leave
the declaration. -/
theorem crowdedText_spreadText :
    ∃ tokens others, tokenize crowdedText = .ok tokens ∧
      tokenize spreadText = .ok others ∧
      tokens.map Token.lexeme = others.map Token.lexeme ∧
      AlikeResults (start.readFormula crowdedText)
        (start.readFormula spreadText) ∧
      (start.readFormula crowdedText).snd.symbols.declarations.length = 1 := by
  have tokenized : (tokenize crowdedText).toOption.isSome = true := by
    decide +kernel
  have otherTokenized : (tokenize spreadText).toOption.isSome = true := by
    decide +kernel
  have same : (tokenize crowdedText).toOption.map (List.map Token.lexeme) =
      (tokenize spreadText).toOption.map (List.map Token.lexeme) := by
        decide +kernel
  have declared :
      (start.readFormula crowdedText).snd.symbols.declarations.length = 1 := by
    decide +kernel
  obtain ⟨tokens, tokenized⟩ := Option.isSome_iff_exists.mp tokenized
  obtain ⟨others, otherTokenized⟩ := Option.isSome_iff_exists.mp otherTokenized
  rw [tokenized, otherTokenized] at same
  have tokenized := Outcome.toOption_eq_some_iff.mp tokenized
  have otherTokenized := Outcome.toOption_eq_some_iff.mp otherTokenized
  have same := Option.some.inj same
  exact ⟨tokens, others, tokenized, otherTokenized, same,
    readFormula_of_sameLexemes start tokenized otherTokenized same, declared⟩

end Session

end ModelAudit
