import ModelAudit.Proofs.SolverLayout

/-!
# Wrappers around a model

Solvers print the commands of a model as they are, in parentheses, or in
parentheses after the word `model`, and each of these forms may stand after the
answer `sat`. One part of the wrapper is removed from the text and another one
from the expressions. Together they remove all of it and nothing else, whatever
the commands hold.
-/

namespace ModelAudit

namespace SExpr

/-- The symbols that head the commands of a model. -/
def modelHeads : List Text :=
  ["define-fun", "declare-fun", "declare-const", "declare-sort"]

def isModelCommand (expression : SExpr) : Bool :=
  expression.headSymbol?.any modelHeads.contains

/-- A command of a model is a list with the command's word at its head. -/
theorem exists_of_isModelCommand {expression : SExpr}
    (command : expression.isModelCommand = true) :
    ∃ head quoted headPlace items place,
      expression =
          .list (.atom (.symbol head quoted) headPlace :: items) place ∧
        head ∈ modelHeads := by
  obtain ⟨head, symbol, listed⟩ := Option.any_eq_true _ _ |>.mp command
  rcases expression with _ | ⟨_ | ⟨⟨leaf, headPlace⟩ | _, items⟩, place⟩
  case list.cons.atom =>
    cases leaf with
    | symbol name quoted =>
        obtain rfl := Option.some.inj symbol
        exact ⟨name, quoted, headPlace, items, place, rfl,
          by simpa using listed⟩
    | numeral _ | decimal _ | hexadecimal _ | binary _ | string _ | keyword _ =>
      cases symbol
  all_goals cases symbol

theorem startsWithWord_of_mem_modelHeads :
    ∀ head ∈ modelHeads, head ≠ "model" ∧
      head.startsWithWord "model" = false := by
  decide

theorem isCommand_of_isModelCommand {expression : SExpr}
    (command : expression.isModelCommand = true) :
    expression.isCommand = true := by
  obtain ⟨head, symbol, listed⟩ := Option.any_eq_true _ _ |>.mp command
  have other :=
    (startsWithWord_of_mem_modelHeads head (by simpa using listed)).1
  exact Option.any_eq_true _ _ |>.mpr ⟨head, symbol, decide_eq_true other⟩

end SExpr

namespace SolverOutput

open Lexer

/-- How the commands of a model are enclosed. -/
inductive Enclosure
  | nothing
  | parentheses
  /-- Parentheses, and the word `model` before the commands. -/
  | model
deriving DecidableEq

def Enclosure.enclose (commands : List SExpr) : Enclosure → List SExpr
  | nothing => commands
  | parentheses => [.list commands .start]
  | model => [.list (.atom (.symbol "model" false) .start :: commands) .start]

/-- The form of an output that holds a model. -/
structure Wrapper where
  /-- The answer `sat` comes first. -/
  answered : Bool
  enclosure : Enclosure
deriving DecidableEq

/-- The expressions of an output of this form. -/
def Wrapper.wrap (wrapper : Wrapper) (commands : List SExpr) : List SExpr :=
  if wrapper.answered then
    .atom (.symbol "sat" false) .start :: wrapper.enclosure.enclose commands
  else wrapper.enclosure.enclose commands

/-- The text has the tokens of the expressions, with white space but no comments
around them. -/
structure Writes (text : Text) (expressions : List SExpr) : Prop where
  tokens : (tokenize text).toOption.map (List.map Token.lexeme) =
    some (SExpr.lexemesOfAll expressions)
  uncommented : none ∉ outline text

instance (text : Text) (expressions : List SExpr) :
    Decidable (Writes text expressions) :=
  decidable_of_iff (_ ∧ _) ⟨fun ⟨tokens, uncommented⟩ => ⟨tokens, uncommented⟩,
    fun written => ⟨written.tokens, written.uncommented⟩⟩

variable {output : Text} {commands expressions : List SExpr} {wrapper : Wrapper}

theorem eq_map_some {outlined : Outline} (uncommented : none ∉ outlined) :
    outlined = outlined.reduceOption.map some := by
  induction outlined with
  | nil => rfl
  | cons entry later inductionHypothesis =>
      rw [List.mem_cons, not_or] at uncommented
      cases entry with
      | none => exact absurd rfl uncommented.1
      | some lexeme =>
          rw [List.reduceOption_cons_of_some, List.map_cons,
            ← inductionHypothesis uncommented.2]

theorem reduceOption_map_some (lexemes : List Lexeme) :
    (lexemes.map some).reduceOption = lexemes := by
  rw [List.reduceOption, List.filterMap_map]
  exact List.filterMap_some

theorem Writes.outlines (written : Writes output expressions) :
    Outlines output ((SExpr.lexemesOfAll expressions).map some) := by
  obtain ⟨tokens, tokenized, lexemes⟩ :=
    Option.map_eq_some_iff.mp written.tokens
  obtain ⟨outlines, reduced⟩ :=
    outlines_of_tokenize (Outcome.toOption_eq_some_iff.mp tokenized)
  have whole := eq_map_some written.uncommented
  rw [reduced, lexemes] at whole
  exact whole ▸ outlines

/-! ## The frame of an output without comments -/

theorem not_opensWithComment (lexemes : List Lexeme) :
    opensWithComment (lexemes.map some) = false := by
  cases lexemes <;> rfl

theorem afterToken_map_some (lexemes : List Lexeme) :
    afterToken (lexemes.map some) = lexemes.tail.map some := by
  cases lexemes <;> rfl

theorem frame_of_outlines {lexemes : List Lexeme}
    (outlines : Outlines output (lexemes.map some)) :
    frame output = ⟨false, false, false, false, output.strip.endsWith ")"⟩ := by
  have last : (lexemes.map some).getLast? ≠ some none := by
    rw [List.getLast?_map]
    cases lexemes.getLast? <;> simp
  simp only [frame, outline_eq outlines, afterToken_map_some,
    not_opensWithComment, last, decide_false]

theorem not_hides (closed : Bool) (lexemes : List Lexeme) :
    Frame.hides ⟨false, false, false, false, closed⟩ lexemes = false := by
  rw [Frame.hides, Bool.and_false, Bool.or_false]

theorem closed_of_outlines {lexemes : List Lexeme}
    (outlines : Outlines output (lexemes.map some))
    (closes : lexemes.getLast? = some .rightParenthesis) :
    frame output = ⟨false, false, false, false, true⟩ := by
  obtain ⟨earlier, rfl⟩ := List.getLast?_eq_some_iff.mp closes
  rw [frame_of_outlines outlines]
  rw [List.map_append] at outlines
  obtain ⟨front, shape, _⟩ :=
    outlines.strip.drop_closing (trimmed_strip output).closes
  rw [endsWith_closing, shape, List.getLast?_concat, decide_eq_true rfl]

/-! ## What is left of the lexemes -/

section Commands

variable (nonempty : commands ≠ [])
  (all : ∀ command ∈ commands, command.isModelCommand = true)
include nonempty all

/-- Commands open with a parenthesis, after which neither a list nor the word
`model` stands. -/
theorem exists_lexemesOfAll_commands :
    ∃ inner, SExpr.lexemesOfAll commands = .leftParenthesis :: inner ∧
      ¬inner.head? = some .leftParenthesis ∧
      (leadingWord inner).startsWithWord "model" = false := by
  obtain ⟨first, others, rfl⟩ := List.exists_cons_of_ne_nil nonempty
  obtain ⟨head, quoted, headPlace, items, place, rfl, listed⟩ :=
    SExpr.exists_of_isModelCommand (all first List.mem_cons_self)
  refine ⟨_, rfl, by simp [SExpr.spellingOfAll, SExpr.spelling], ?_⟩
  cases quoted with
  | true => rfl
  | false => exact (SExpr.startsWithWord_of_mem_modelHeads head listed).2

/-- Enclosed commands are not taken for an answer. -/
theorem not_opensWithAnswer_enclose (enclosure : Enclosure) :
    opensWithAnswer (SExpr.lexemesOfAll (enclosure.enclose commands)) =
      false := by
  have opening (inner : List Lexeme) :
      opensWithAnswer (.leftParenthesis :: inner) = false := by
    rw [opensWithAnswer, show leadingWord (.leftParenthesis :: inner) = []
      from rfl]
    decide
  cases enclosure with
  | nothing =>
      obtain ⟨inner, shape, _⟩ := exists_lexemesOfAll_commands nonempty all
      rw [Enclosure.enclose, shape]
      exact opening inner
  | parentheses | model =>
      rw [Enclosure.enclose, SExpr.lexemesOfAll_list]
      exact opening _

/-- Parentheses after the answer are removed, and the word `model` with them. -/
theorem unwrapped_commands {heading : List SExpr} (head : Heading heading) :
    Frame.unwrapped ⟨false, false, false, false, true⟩
        (SExpr.lexemesOfAll (heading ++ commands) ++ [.rightParenthesis]) =
      SExpr.lexemesOfAll commands := by
  have commandsAll : ∀ command ∈ commands, command.isCommand = true :=
    fun command member =>
    SExpr.isCommand_of_isModelCommand (all command member)
  have without :=
    withoutModelWord_heading head commandsAll (show leadingWord [] = []
      from rfl)
  rw [List.append_nil, List.append_nil] at without
  have opens :
      (decide ((SExpr.lexemesOfAll (heading ++ commands)).head? =
        some .leftParenthesis) ||
      (leadingWord (SExpr.lexemesOfAll (heading ++ commands))).startsWithWord
        "model") = true := by
    cases head with
    | nothing =>
        obtain ⟨inner, shape, _⟩ := exists_lexemesOfAll_commands nonempty all
        rw [List.nil_append, shape]
        rfl
    | model =>
        rw [SExpr.lexemesOfAll_append,
          show leadingWord _ = Text.ofString "model" from rfl,
          show Text.startsWithWord "model" "model" = true by
            decide, Bool.or_true]
  simp only [Frame.unwrapped, List.dropLast_concat, opens, Bool.false_eq_true,
    if_false, Bool.not_false, Bool.and_self, if_true, without]

/-- What is left of an output is the commands, perhaps still enclosed. -/
theorem exists_remaining (written : Writes output (wrapper.wrap commands)) :
    ∃ kept, (frame output).remaining
      (SExpr.lexemesOfAll (wrapper.wrap commands)) =
        .ok (SExpr.lexemesOfAll kept) ∧
      (kept = commands ∨ kept = wrapper.enclosure.enclose commands) := by
  have outlines := written.outlines
  obtain ⟨answered, enclosure⟩ := wrapper
  cases answered with
  | false =>
      exact ⟨_, remaining_of_not_opensWithAnswer
        (not_opensWithAnswer_enclose nonempty all enclosure) _, .inr rfl⟩
  | true =>
      refine ⟨commands, ?_, .inl rfl⟩
      have answer (expressions : List SExpr) : SExpr.lexemesOfAll
          (.atom (.symbol "sat" false) .start :: expressions) =
            sat :: SExpr.lexemesOfAll expressions :=
        rfl
      have list {heading : List SExpr} (head : Heading heading)
          (enclosed : Outlines output ((sat ::
            SExpr.lexemesOfAll [.list (heading ++ commands) .start]).map
              some)) :
          (frame output).remaining
            (sat :: SExpr.lexemesOfAll [.list (heading ++ commands) .start]) =
            .ok (SExpr.lexemesOfAll commands) := by
        rw [SExpr.lexemesOfAll_list] at enclosed ⊢
        have closes : (sat :: .leftParenthesis ::
            (SExpr.lexemesOfAll
              (heading ++ commands) ++ [.rightParenthesis])).getLast? =
              some Lexeme.rightParenthesis := by
          rw [← List.cons_append, ← List.cons_append, List.getLast?_concat]
        rw [closed_of_outlines enclosed closes,
          remaining_of_list (not_hides _ _),
          unwrapped_commands nonempty all head]
      rw [Wrapper.wrap, if_pos rfl, answer] at outlines ⊢
      cases enclosure with
      | nothing =>
          obtain ⟨inner, shape, noList, noModel⟩ :=
            exists_lexemesOfAll_commands nonempty all
          rw [Enclosure.enclose, shape] at outlines ⊢
          rw [frame_of_outlines outlines, remaining_of_list (not_hides _ _),
            unwrapped_of_not_opens noList noModel]
      | parentheses =>
          rw [Enclosure.enclose, ← List.nil_append commands] at outlines ⊢
          exact list .nothing outlines
      | model =>
          have headed : SExpr.atom (.symbol "model" false) .start :: commands =
              [.atom (.symbol "model" false) .start] ++ commands :=
            rfl
          rw [Enclosure.enclose, headed] at outlines ⊢
          exact list .model outlines

end Commands

/-! ## Commands that are read -/

/-- What is left of an output, if rendered by the lexemes of commands, is read
as these commands up to positions. -/
theorem exists_of_renders {remaining : Except NoModelCause Text}
    {kept : List SExpr}
    (renders : Session.Renders remaining (.ok (SExpr.lexemesOfAll kept))) :
    ∃ text expressions, remaining = .ok text ∧
      readExpressions text = .ok expressions ∧
      expressions.map SExpr.bare = kept.map SExpr.bare := by
  generalize rendered : SExpr.lexemesOfAll kept = lexemes at renders
  cases renders with
  | @ok text tokens tokenized =>
      have grouped := Reader.groupLexemes?_lexemesOfAll kept
      rw [rendered, Reader.groupLexemes?_of_tokens] at grouped
      obtain ⟨expressions, read, same⟩ := Option.map_eq_some_iff.mp grouped
      refine ⟨text, expressions, rfl, ?_, same⟩
      rw [readExpressions, tokenized, Outcome.ok_bind,
        Outcome.toOption_eq_some_iff.mp read]

theorem unwrapModel_enclose
    (all : ∀ command ∈ commands, command.isCommand = true)
    (enclosure : Enclosure) :
    Session.unwrapModel (enclosure.enclose commands) = commands := by
  cases enclosure with
  | nothing => exact Session.unwrapModel_of_commands all
  | parentheses => exact Session.unwrapModel_list all .start
  | model => rfl

/-- Whatever form an output has, its commands are read as they are. -/
theorem wrapper_removed (wrapper : Wrapper) (nonempty : commands ≠ [])
    (all : ∀ command ∈ commands, command.isModelCommand = true)
    (written : Writes output (wrapper.wrap commands)) :
    ∃ text expressions, modelText output = .ok text ∧
      readExpressions text = .ok expressions ∧
      (Session.unwrapModel expressions).map SExpr.bare =
        commands.map SExpr.bare := by
  have renders := renders_modelText written.outlines
  obtain ⟨kept, remaining, shape⟩ := exists_remaining nonempty all written
  rw [reduceOption_map_some, remaining] at renders
  obtain ⟨text, expressions, isText, read, same⟩ := exists_of_renders renders
  refine ⟨text, expressions, isText, read, ?_⟩
  have isCommand : ∀ command ∈ commands, command.isCommand = true :=
    fun command member =>
    SExpr.isCommand_of_isModelCommand (all command member)
  have unwrapped : Session.unwrapModel kept = commands := by
    rcases shape with rfl | rfl
    · exact Session.unwrapModel_of_commands isCommand
    · exact unwrapModel_enclose isCommand _
  rw [← Session.unwrapModel_bare, same, Session.unwrapModel_bare, unwrapped]

/-- The definition of the constant `)(` as a string that holds parentheses, the
word `model` and a quote. -/
def parenthesesDefinition : SExpr :=
  .list [.atom (.symbol "define-fun" false) .start,
    .atom (.symbol ")(" true) .start, .list [] .start,
    .atom (.symbol "String" false) .start,
    .atom (.string "(model \")") .start] .start

/-- The definition in the longest form of an output, and right after the
answer. -/
theorem parenthesesDefinition_read :
    (∀ command ∈ [parenthesesDefinition], command.isModelCommand = true) ∧
    Writes "sat\n(model\n  (define-fun |)(| () String \"(model \"\")\")\n)\n"
      (Wrapper.wrap ⟨true, .model⟩ [parenthesesDefinition]) ∧
    Writes "sat(define-fun |)(|() String\"(model \"\")\")"
      (Wrapper.wrap ⟨true, .nothing⟩ [parenthesesDefinition]) ∧
    (∃ text expressions,
      modelText
        "sat\n(model\n  (define-fun |)(| () String \"(model \"\")\")\n)\n" =
          .ok text ∧
      readExpressions text = .ok expressions ∧
      (Session.unwrapModel expressions).map SExpr.bare =
        [parenthesesDefinition].map SExpr.bare) ∧
    ∃ text expressions,
      modelText "sat(define-fun |)(|() String\"(model \"\")\")" = .ok text ∧
      readExpressions text = .ok expressions ∧
      (Session.unwrapModel expressions).map SExpr.bare =
        [parenthesesDefinition].map SExpr.bare := by
  have all : ∀ command ∈ [parenthesesDefinition], command.isModelCommand =
      true := by
    decide +kernel
  have enclosed :
      Writes "sat\n(model\n  (define-fun |)(| () String \"(model \"\")\")\n)\n"
      (Wrapper.wrap ⟨true, .model⟩ [parenthesesDefinition]) := by
    decide +kernel
  have bare : Writes "sat(define-fun |)(|() String\"(model \"\")\")"
      (Wrapper.wrap ⟨true, .nothing⟩ [parenthesesDefinition]) := by
    decide +kernel
  exact ⟨all, enclosed, bare,
    wrapper_removed _ (List.cons_ne_nil _ _) all enclosed,
    wrapper_removed _ (List.cons_ne_nil _ _) all bare⟩

end SolverOutput

end ModelAudit
