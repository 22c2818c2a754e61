import ModelAudit.Proofs.BalancedReading
import ModelAudit.Proofs.SolverFrames

/-!
# The layout of a solver's output

White space between the tokens of an output makes no difference to what is read
from it, nor do comments between commands. Comments before the answer or right
after it hide the answer, and a comment at the end of the output may be taken
for the end of the model. Otherwise outputs with the same tokens are read alike.
-/

namespace ModelAudit

/-! ## Lexemes of expressions -/

namespace SExpr

/-- The lexemes that expressions are written with. -/
def lexemesOfAll (expressions : List SExpr) : List Lexeme :=
  (spellingOfAll expressions).map Prod.fst

theorem lexemesOfAll_append (left right : List SExpr) :
    lexemesOfAll (left ++ right) = lexemesOfAll left ++ lexemesOfAll right := by
  rw [lexemesOfAll, spellingOfAll_append, List.map_append]
  rfl

theorem lexemesOfAll_list (items : List SExpr) (place : Position) :
    lexemesOfAll [.list items place] =
      .leftParenthesis :: (lexemesOfAll items ++ [.rightParenthesis]) := by
  simp [lexemesOfAll, spellingOfAll, spelling]

/-- A list that is headed by a symbol other than `model`. -/
def isCommand (expression : SExpr) : Bool :=
  expression.headSymbol?.any (· ≠ Text.ofString "model")

theorem isCommand_bare (expression : SExpr) :
    expression.bare.isCommand = expression.isCommand := by
  rw [isCommand, isCommand, headSymbol?_bare]

theorem exists_of_isCommand {expression : SExpr}
    (command : expression.isCommand = true) :
    ∃ items place, expression = .list items place ∧ items.all isList = false ∧
      expression.headSymbol? ≠ some (Text.ofString "model") := by
  obtain ⟨head, symbol, other⟩ := Option.any_eq_true _ _ |>.mp command
  rcases expression with _ | ⟨_ | ⟨⟨leaf, position⟩ | _, items⟩, place⟩
  case list.cons.atom =>
    refine ⟨_, place, rfl, rfl, ?_⟩
    rw [symbol]
    rintro ⟨⟩
    exact absurd other (by decide)
  all_goals cases symbol

end SExpr

namespace Reader

def readLexeme (state : State) (lexeme : Lexeme) : Except ReadFault State :=
  state.step ⟨lexeme, .start⟩

def State.addAll (state : State) (expressions : List SExpr) : State :=
  expressions.foldl (fun state expression => state.add expression.bare) state

theorem addAll_opened (outer : List OpenList)
    (top items expressions : List SExpr) :
    State.addAll ⟨⟨.start, items⟩ :: outer, top⟩ expressions =
      ⟨⟨.start, (expressions.map SExpr.bare).reverse ++ items⟩ :: outer,
        top⟩ := by
  induction expressions generalizing items with
  | nil => rfl
  | cons expression expressions inductionHypothesis =>
      rw [State.addAll, List.foldl_cons]
      exact (inductionHypothesis (expression.bare :: items)).trans (by simp)

theorem addAll_top (top expressions : List SExpr) :
    State.addAll ⟨[], top⟩ expressions =
      ⟨[], (expressions.map SExpr.bare).reverse ++ top⟩ := by
  induction expressions generalizing top with
  | nil => rfl
  | cons expression expressions inductionHypothesis =>
      rw [State.addAll, List.foldl_cons]
      exact (inductionHypothesis (expression.bare :: top)).trans (by simp)

mutual

/-- The lexemes of an expression add this expression. -/
theorem foldlM_spelling (state : State) : (expression : SExpr) →
    (expression.spelling.map Prod.fst).foldlM readLexeme state =
      .ok (state.add expression.bare)
  | .atom leaf position => rfl
  | .list items position => by
      rw [SExpr.spelling, List.map_append, List.map_cons, List.foldlM_append,
        List.foldlM_cons]
      have inside :=
        foldlM_spellingOfAll ⟨⟨.start, []⟩ :: state.opened, state.top⟩ items
      rw [addAll_opened, List.append_nil] at inside
      have closes (reversed : List SExpr) :
          readLexeme ⟨⟨.start, reversed⟩ :: state.opened,
            state.top⟩ .rightParenthesis =
            .ok (state.add (.list reversed.reverse .start)) :=
        rfl
      show (SExpr.lexemesOfAll items).foldlM readLexeme _ >>= _ = _
      rw [inside, SExpr.bare_list, Outcome.ok_bind, List.map_cons, List.map_nil,
        List.foldlM_cons, closes, List.reverse_reverse]
      rfl

theorem foldlM_spellingOfAll (state : State) : (expressions : List SExpr) →
    (SExpr.lexemesOfAll expressions).foldlM readLexeme state =
      .ok (state.addAll expressions)
  | [] => rfl
  | expression :: expressions => by
      rw [SExpr.lexemesOfAll, SExpr.spellingOfAll, List.map_append,
        List.foldlM_append, foldlM_spelling state expression, Outcome.ok_bind]
      exact foldlM_spellingOfAll _ expressions

end

theorem groupLexemes?_lexemesOfAll (expressions : List SExpr) :
    groupLexemes? (SExpr.lexemesOfAll expressions) =
      some (expressions.map SExpr.bare) := by
  have run := foldlM_spellingOfAll ⟨[], []⟩ expressions
  rw [addAll_top, List.append_nil] at run
  rw [groupLexemes?, group, List.foldlM_map]
  show Except.toOption
      ((SExpr.lexemesOfAll expressions).foldlM readLexeme _ >>= _) = _
  rw [run, Outcome.ok_bind]
  exact congrArg some (List.reverse_reverse _)

theorem groupLexemes?_unbalanced (expressions : List SExpr) :
    groupLexemes? (SExpr.lexemesOfAll expressions ++ [.rightParenthesis]) =
      none := by
  have run := foldlM_spellingOfAll ⟨[], []⟩ expressions
  rw [addAll_top, List.append_nil] at run
  rw [groupLexemes?, group, List.foldlM_map]
  show Except.toOption ((_ ++ _ : List Lexeme).foldlM readLexeme _ >>= _) = _
  rw [List.foldlM_append, run]
  rfl

end Reader

namespace Session

theorem unwrapModel_of_commands {commands : List SExpr}
    (all : ∀ command ∈ commands, command.isCommand = true) :
    unwrapModel commands = commands := by
  rcases commands with _ | ⟨command, _ | ⟨next, later⟩⟩
  · rfl
  · obtain ⟨items, place, rfl, notLists, other⟩ :=
      SExpr.exists_of_isCommand (all command List.mem_cons_self)
    simp only [unwrapModel, if_neg other, notLists, Bool.false_eq_true,
      if_false]
  · cases command <;> rfl

/-- Parentheses around commands are removed, be the word `model` before the
commands or not. -/
theorem unwrapModel_list {commands : List SExpr}
    (all : ∀ command ∈ commands, command.isCommand = true) (place : Position) :
    unwrapModel [.list commands place] = commands := by
  have lists : commands.all SExpr.isList = true := by
    rw [List.all_eq_true]
    intro command member
    obtain ⟨items, position, rfl, _⟩ :=
      SExpr.exists_of_isCommand (all command member)
    rfl
  have headless : (SExpr.list commands place).headSymbol? = none := by
    rcases commands with _ | ⟨command, later⟩
    · rfl
    · obtain ⟨items, position, rfl, _⟩ :=
        SExpr.exists_of_isCommand (all command List.mem_cons_self)
      rfl
  simp only [unwrapModel, headless, lists, reduceCtorEq, if_false, if_true]

end Session

namespace SolverOutput

/-! ## Frames that agree -/

/-- The lexemes open with a word that is taken for an answer or for the word
before a model. -/
def opensWithAnswer (lexemes : List Lexeme) : Bool :=
  (otherAnswer? (leadingWord lexemes)).isSome || leadingWord lexemes = "sat" ||
    (leadingWord lexemes).startsWithWord "model"

/-- The lexemes open with a parenthesis that wraps lists, or the word `model`,
after `sat`. -/
def opensWithWrapper (lexemes : List Lexeme) : Bool :=
  lexemes.take 2 = [sat, .leftParenthesis] &&
    ((lexemes.drop 2).head? = some .leftParenthesis ||
      (leadingWord (lexemes.drop 2)).startsWithWord "model")

/-- What may stand before the commands of a model. -/
inductive Heading : List SExpr → Prop
  | nothing : Heading []
  | model : Heading [.atom (.symbol "model" false) .start]

/-- The lexemes are those of `sat` and of a list that has commands, perhaps
after the word `model`. -/
def WrapsCommands (lexemes : List Lexeme) : Prop :=
  ∃ heading commands, Heading heading ∧
    (∀ command ∈ commands, command.isCommand = true) ∧
    lexemes = sat :: SExpr.lexemesOfAll [.list (heading ++ commands) .start]

namespace Frame

/-- A comment stands before the opening word, or between `sat` and what
follows. -/
def hides (frame : Frame) (lexemes : List Lexeme) : Bool :=
  frame.beforeFirst || leadingWord lexemes = "sat" && frame.afterFirst

/-- The end of a comment is taken for the closing parenthesis. -/
def overruns (frame : Frame) : Bool :=
  frame.closed && frame.afterLast && !frame.afterSecond

/-- The frames are the same as far as they matter to the lexemes. -/
structure AgreeOn (lexemes : List Lexeme) (frame other : Frame) : Prop where
  beforeFirst : opensWithAnswer lexemes = true →
      frame.beforeFirst = other.beforeFirst
  afterFirst : leadingWord lexemes = "sat" → frame.afterFirst = other.afterFirst
  wrapper : opensWithWrapper lexemes = true → frame = other ∨
    WrapsCommands lexemes ∧ frame.overruns = false ∧ other.overruns = false

/-- A comment hides the answer, or ends where the model should end. -/
inductive Obstructs (frame : Frame) (lexemes : List Lexeme) : Prop
  | hidden : opensWithAnswer lexemes = true → frame.hides lexemes = true →
      Obstructs frame lexemes
  | overrun : opensWithWrapper lexemes = true → WrapsCommands lexemes →
      frame.hides lexemes = false → frame.overruns = true →
      Obstructs frame lexemes

end Frame

variable {lexemes : List Lexeme} {frame other : Frame}

theorem ne_of_leadingWord (notSat : ¬leadingWord lexemes = "sat") :
    ¬lexemes = [sat] ∧ ¬lexemes.take 2 = [sat, .leftParenthesis] := by
  constructor
  · rintro rfl
    exact notSat rfl
  · intro list
    have split := List.take_append_drop 2 lexemes
    rw [list] at split
    rw [← split] at notSat
    exact notSat rfl

theorem remaining_of_not_opensWithAnswer
    (plain : opensWithAnswer lexemes = false) (frame : Frame) :
    frame.remaining lexemes = .ok lexemes := by
  simp only [opensWithAnswer, Bool.or_eq_false_iff, Option.isSome_eq_false_iff,
    Option.isNone_iff_eq_none, decide_eq_false_iff_not] at plain
  obtain ⟨⟨noAnswer, notSat⟩, noModel⟩ := plain
  simp only [Frame.remaining, noAnswer, ne_of_leadingWord notSat,
    withoutModelWord, noModel, decide_false, Bool.false_and, Bool.false_eq_true,
    if_false, ite_self]

theorem remaining_of_ne_sat (notSat : ¬leadingWord lexemes = "sat")
    (same : frame.beforeFirst = other.beforeFirst) :
    frame.remaining lexemes = other.remaining lexemes := by
  simp only [Frame.remaining, same, ne_of_leadingWord notSat, decide_false,
    Bool.false_and, Bool.false_eq_true, if_false]

theorem remaining_of_hides (hidden : frame.hides lexemes = true) :
    frame.remaining lexemes = .ok lexemes := by
  rw [Frame.hides, Bool.or_eq_true, Bool.and_eq_true, decide_eq_true_eq]
    at hidden
  rcases hidden with before | ⟨isSat, after⟩
  · rw [Frame.remaining, if_pos before]
  · rw [Frame.remaining, after, isSat, show otherAnswer? "sat" = none by decide,
      withoutModelWord, isSat, show Text.startsWithWord "sat" "model" = false by
        decide]
    simp

theorem remaining_of_list {inner : List Lexeme}
    (visible : frame.hides (sat :: .leftParenthesis :: inner) = false) :
    frame.remaining (sat :: .leftParenthesis :: inner) =
      .ok (frame.unwrapped inner) := by
  have word : leadingWord (sat :: .leftParenthesis :: inner) = "sat" := rfl
  rw [Frame.hides, word, decide_eq_true rfl, Bool.true_and,
    Bool.or_eq_false_iff] at visible
  rw [Frame.remaining, visible.1, visible.2, word,
    show otherAnswer? "sat" = none by decide]
  simp

theorem unwrapped_of_not_opens {inner : List Lexeme}
    (noList : ¬inner.head? = some .leftParenthesis)
    (noModel : (leadingWord inner).startsWithWord "model" = false)
    (frame : Frame) :
    frame.unwrapped inner = .leftParenthesis :: inner := by
  have shorter : ¬inner.dropLast.head? = some .leftParenthesis ∧
      (leadingWord inner.dropLast).startsWithWord "model" = false := by
    rcases inner with _ | ⟨_, _ | _⟩
    case cons.cons => exact ⟨noList, noModel⟩
    all_goals exact ⟨by simp, rfl⟩
  rw [Frame.unwrapped]
  cases frame.afterLast with
  | true => simp [noList, noModel]
  | false => simp [shorter]

theorem exists_atom_of_opensWithAnswer
    (answer : opensWithAnswer lexemes = true) :
    ∃ leaf later, lexemes = .atom leaf :: later := by
  rcases lexemes with _ | ⟨_ | _ | leaf, later⟩
  case cons.atom => exact ⟨leaf, later, rfl⟩
  all_goals exact absurd answer (show ¬opensWithAnswer [] = true by decide)

/-! ## Commands in parentheses -/

section Commands

variable {heading commands : List SExpr}

theorem leadingWord_commands
    (all : ∀ command ∈ commands, command.isCommand = true)
    {closing : List Lexeme} (wordless : leadingWord closing = []) :
    leadingWord (SExpr.lexemesOfAll commands ++ closing) = [] := by
  rcases commands with _ | ⟨command, commands⟩
  · exact wordless
  · obtain ⟨items, place, rfl, _⟩ :=
      SExpr.exists_of_isCommand (all command List.mem_cons_self)
    rfl

/-- What may stand before the commands of a model is removed. -/
theorem withoutModelWord_heading (head : Heading heading)
    (all : ∀ command ∈ commands, command.isCommand = true)
    {closing : List Lexeme}
    (wordless : leadingWord closing = []) :
    withoutModelWord (SExpr.lexemesOfAll (heading ++ commands) ++ closing) =
      SExpr.lexemesOfAll commands ++ closing := by
  cases head with
  | nothing =>
      rw [List.nil_append, withoutModelWord, leadingWord_commands all wordless]
      rfl
  | model =>
      rw [SExpr.lexemesOfAll_append, withoutModelWord,
        show leadingWord _ = Text.ofString "model" from rfl,
        show Text.startsWithWord "model" "model" = true by
          decide, if_pos rfl, if_pos rfl]
      rfl

end Commands

end SolverOutput

/-! ## Reading -/

namespace Session

open SolverOutput

variable {session : Session} {frame other : Frame}
  {heading commands : List SExpr}

theorem readLexemes_of_group (ready : session.formulaRead = true)
    {lexemes : List Lexeme} {expressions : List SExpr}
    (grouped : Reader.groupLexemes? lexemes = some expressions) :
    session.readLexemes (.ok lexemes) = session.readCommands
      (unwrapModel expressions) := by
  unfold readLexemes
  rw [if_pos ready]
  dsimp only
  rw [grouped]

theorem isCommand_map_bare
    (all : ∀ command ∈ commands, command.isCommand = true) :
    ∀ command ∈ commands.map SExpr.bare, command.isCommand = true := by
  intro command member
  obtain ⟨original, inside, rfl⟩ := List.mem_map.mp member
  rw [SExpr.isCommand_bare]
  exact all original inside

/-- Parentheses around commands make no difference. -/
theorem readLexemes_wrapped (ready : session.formulaRead = true)
    (head : Heading heading)
    (all : ∀ command ∈ commands, command.isCommand = true) :
    session.readLexemes
        (.ok (SExpr.lexemesOfAll [.list (heading ++ commands) .start])) =
      session.readLexemes (.ok (SExpr.lexemesOfAll commands)) := by
  rw [readLexemes_of_group ready (Reader.groupLexemes?_lexemesOfAll _),
    readLexemes_of_group ready (Reader.groupLexemes?_lexemesOfAll _),
    unwrapModel_of_commands (isCommand_map_bare all), List.map_cons,
    List.map_nil, SExpr.bare_list]
  cases head with
  | nothing => rw [List.nil_append, unwrapModel_list (isCommand_map_bare all)]
  | model => rfl

/-- It makes no difference whether parentheses around commands are removed from
the text, if they are removed as a pair. -/
theorem readLexemes_unwrapped (ready : session.formulaRead = true)
    (head : Heading heading)
    (all : ∀ command ∈ commands, command.isCommand = true)
    (inside : frame.overruns = false) :
    session.readLexemes (.ok (frame.unwrapped
        (SExpr.lexemesOfAll (heading ++ commands) ++ [.rightParenthesis]))) =
      session.readLexemes (.ok (SExpr.lexemesOfAll commands)) := by
  have wrapped := readLexemes_wrapped ready head all
  rw [SExpr.lexemesOfAll_list] at wrapped
  rw [Frame.overruns] at inside
  rw [Frame.unwrapped]
  cases last : frame.afterLast with
  | true =>
      rw [last, Bool.and_true] at inside
      rw [inside, Bool.false_and, if_neg Bool.false_ne_true]
      exact wrapped
  | false =>
      have without :=
        withoutModelWord_heading head all (show leadingWord [] = [] from rfl)
      rw [List.append_nil, List.append_nil] at without
      rw [if_neg Bool.false_ne_true, List.dropLast_concat, without]
      split
      · rfl
      · exact wrapped

/-- Frames that agree on the lexemes lead to the same model. -/
theorem readLexemes_of_list (ready : session.formulaRead = true)
    {inner : List Lexeme}
    (agree : frame.AgreeOn (sat :: .leftParenthesis :: inner) other) :
    session.readLexemes (.ok (frame.unwrapped inner)) =
      session.readLexemes (.ok (other.unwrapped inner)) := by
  cases wrapper : opensWithWrapper (sat :: .leftParenthesis :: inner) with
  | false =>
      have plain : (decide (inner.head? = some .leftParenthesis) ||
          (leadingWord inner).startsWithWord "model") = false := wrapper
      rw [Bool.or_eq_false_iff, decide_eq_false_iff_not] at plain
      rw [unwrapped_of_not_opens plain.1 plain.2,
        unwrapped_of_not_opens plain.1 plain.2]
  | true =>
      rcases agree.wrapper wrapper
        with rfl | ⟨⟨heading, commands, head, all, whole⟩, one, two⟩
      · rfl
      · rw [SExpr.lexemesOfAll_list] at whole
        obtain ⟨_, rest⟩ := List.cons.inj whole
        obtain ⟨_, rfl⟩ := List.cons.inj rest
        rw [readLexemes_unwrapped ready head all one,
          readLexemes_unwrapped ready head all two]

/-- Frames that agree on the lexemes let a session read the same. -/
theorem readLexemes_of_agreeOn {lexemes : List Lexeme}
    (agree : frame.AgreeOn lexemes other) :
    session.readLexemes (frame.remaining lexemes) =
      session.readLexemes (other.remaining lexemes) := by
  by_cases ready : session.formulaRead = true
  · cases answer : opensWithAnswer lexemes with
    | false =>
        rw [remaining_of_not_opensWithAnswer answer,
          remaining_of_not_opensWithAnswer answer]
    | true =>
        have before := agree.beforeFirst answer
        by_cases isSat : leadingWord lexemes = "sat"
        · have after := agree.afterFirst isSat
          have sameHides : frame.hides lexemes = other.hides lexemes := by
            rw [Frame.hides, Frame.hides, before, after]
          cases hidden : frame.hides lexemes with
          | true =>
              rw [remaining_of_hides hidden,
                remaining_of_hides (sameHides.symm.trans hidden)]
          | false =>
              by_cases list : lexemes.take 2 = [sat, .leftParenthesis]
              · obtain ⟨inner, rfl⟩ :
                    ∃ inner, lexemes = sat :: .leftParenthesis :: inner := by
                  refine ⟨lexemes.drop 2, ?_⟩
                  conv => lhs; rw [← List.take_append_drop 2 lexemes, list]
                  rfl
                rw [remaining_of_list hidden,
                  remaining_of_list (sameHides.symm.trans hidden)]
                exact readLexemes_of_list ready agree
              · simp only [Frame.remaining, before, after, list, decide_false,
                  Bool.false_and, Bool.false_eq_true, if_false]
        · rw [remaining_of_ne_sat isSat before]
  · unfold readLexemes
    rw [if_neg ready, if_neg ready]

/-- An atom at the beginning is an expression of its own. -/
theorem exists_of_group {leaf : Atom} {position : Position}
    {tokens : List Token} {expressions : List SExpr}
    (grouped : Reader.group (⟨.atom leaf, position⟩ :: tokens) =
      .ok expressions) :
    ∃ place later, expressions = .atom leaf place :: later := by
  cases Reader.grouping (⟨.atom leaf, position⟩ :: tokens) with
  | unopened token _ fault | unclosed token _ _ fault =>
      rw [grouped] at fault
      cases fault
  | complete others _ read spells =>
      obtain rfl := Except.ok.inj (grouped.symm.trans read)
      rcases expressions with _ | ⟨⟨other, place⟩ | _, later⟩
      · cases spells
      · obtain ⟨same, _⟩ := List.cons.inj spells
        obtain rfl := Lexeme.atom.inj (Prod.mk.inj same).1
        exact ⟨place, later, rfl⟩
      · obtain ⟨same, _⟩ := List.cons.inj spells
        cases (Prod.mk.inj same).1

/-- The session reads nothing and does not change, since the lexemes are
malformed. -/
def Refuses (session : Session)
    (result : Except Fault Model × Session) : Prop :=
  ∃ fault, result = (.error fault, session) ∧ fault.kind = .malformed

/-- Whatever starts with an atom is no list of commands. -/
theorem refuses_atom (ready : session.formulaRead = true) (leaf : Atom)
    (lexemes : List Lexeme) :
    session.Refuses (session.readLexemes (.ok (.atom leaf :: lexemes))) := by
  cases grouped : Reader.groupLexemes? (.atom leaf :: lexemes) with
  | none =>
      unfold readLexemes
      rw [if_pos ready]
      dsimp only
      rw [grouped]
      exact ⟨_, rfl, rfl⟩
  | some expressions =>
      rw [readLexemes_of_group ready grouped]
      obtain ⟨place, later, rfl⟩ :=
        exists_of_group (Outcome.toOption_eq_some_iff.mp grouped)
      cases later <;> exact ⟨_, rfl, rfl⟩

theorem refuses_unbalanced (ready : session.formulaRead = true)
    (expressions : List SExpr) :
    session.Refuses
      (session.readLexemes
        (.ok (SExpr.lexemesOfAll expressions ++ [.rightParenthesis]))) := by
  unfold readLexemes
  rw [if_pos ready]
  dsimp only
  rw [Reader.groupLexemes?_unbalanced]
  exact ⟨_, rfl, rfl⟩

/-- A comment that obstructs leaves the answer or a parenthesis where a command
should be. -/
theorem refuses_of_obstructs {lexemes : List Lexeme}
    (ready : session.formulaRead = true) (obstructs : frame.Obstructs lexemes) :
    session.Refuses (session.readLexemes (frame.remaining lexemes)) := by
  cases obstructs with
  | hidden answer hides =>
      obtain ⟨leaf, later, rfl⟩ := exists_atom_of_opensWithAnswer answer
      rw [remaining_of_hides hides]
      exact refuses_atom ready leaf later
  | overrun wrapper wraps visible overruns =>
      obtain ⟨heading, commands, head, all, rfl⟩ := wraps
      rw [SExpr.lexemesOfAll_list] at visible wrapper ⊢
      rw [Frame.overruns, Bool.and_eq_true, Bool.and_eq_true] at overruns
      obtain ⟨⟨closed, last⟩, second⟩ := overruns
      have opens : (decide ((SExpr.lexemesOfAll (heading ++ commands) ++
            [Lexeme.rightParenthesis]).head? = some .leftParenthesis) ||
          (leadingWord (SExpr.lexemesOfAll (heading ++ commands) ++
            [.rightParenthesis])).startsWithWord "model") = true := wrapper
      rw [remaining_of_list visible, Frame.unwrapped, closed, last, second,
        if_pos rfl, opens, Bool.and_self, Bool.and_self, if_pos rfl,
        withoutModelWord_heading head all rfl]
      exact refuses_unbalanced ready commands

theorem Refuses.of_alike {result other : Except Fault Model × Session}
    (refuses : session.Refuses result) (alike : AlikeResults result other) :
    session.Refuses other := by
  obtain ⟨fault, rfl, malformed⟩ := refuses
  obtain ⟨outcome, next⟩ := other
  obtain rfl : session = next := alike.session
  obtain ⟨otherFault, rfl, sameKind⟩ := alike.outcome.exists_error
  exact ⟨otherFault, rfl, sameKind.trans malformed⟩

/-- A session reads models alike if their outputs have the same tokens, in
whatever layout, and frames that agree on these. If a comment hides the answer
or ends where the model should end, the session refuses the output. -/
theorem readModel_layout (session : Session) {output : Text}
    {tokens : List Token} (tokenized : tokenize output = .ok tokens) :
    (∀ other otherTokens, tokenize other = .ok otherTokens →
      otherTokens.map Token.lexeme = tokens.map Token.lexeme →
      (SolverOutput.frame output).AgreeOn (tokens.map Token.lexeme)
          (SolverOutput.frame other) →
        AlikeResults (session.readModel output) (session.readModel other)) ∧
    (session.formulaRead = true →
      (SolverOutput.frame output).Obstructs (tokens.map Token.lexeme) →
        session.Refuses (session.readModel output)) := by
  obtain ⟨outlines, lexemes⟩ := Lexer.outlines_of_tokenize tokenized
  have renders := renders_modelText outlines
  rw [lexemes] at renders
  have alike := session.readModel_alike renders
  refine ⟨fun other otherTokens otherTokenized sameTokens agree => ?_,
    fun ready obstructs => ?_⟩
  · obtain ⟨otherOutlines, otherLexemes⟩ :=
      Lexer.outlines_of_tokenize otherTokenized
    have otherRenders := renders_modelText otherOutlines
    rw [otherLexemes, sameTokens] at otherRenders
    have otherAlike := session.readModel_alike otherRenders
    rw [← readLexemes_of_agreeOn agree] at otherAlike
    exact ⟨alike.outcome.symm.trans otherAlike.outcome,
      alike.session.symm.trans otherAlike.session⟩
  · exact (refuses_of_obstructs ready obstructs).of_alike alike

/-! ## A comment behind the answer -/

def declaredConstant : Session :=
  (start.readFormula "(declare-const x Int)").snd

def definedAsOne : SExpr :=
  .list [.atom (.symbol "define-fun" false) .start,
    .atom (.symbol "x" false) .start, .list [] .start,
    .atom (.symbol "Int" false) .start, .atom (.numeral "1") .start] .start

def answeredOne : List Lexeme :=
  sat :: SExpr.lexemesOfAll [.list [definedAsOne] .start]

/-- The definition is read on one line, and also on three lines with a comment
before it. Behind a comment right after the answer the same tokens are refused,
and so they are before a comment that ends with a parenthesis. -/
theorem commentedAnswer_refused :
    (∃ tokens otherTokens commentedTokens closedTokens,
      tokenize "sat ((define-fun x () Int 1))" = .ok tokens ∧
      tokenize "sat\n( ; one\n(define-fun x () Int 1))" = .ok otherTokens ∧
      tokenize "sat ; one\n((define-fun x () Int 1))" = .ok commentedTokens ∧
      tokenize "sat ((define-fun x () Int 1)) ; (one)" = .ok closedTokens ∧
      tokens.map Token.lexeme = answeredOne ∧
      otherTokens.map Token.lexeme = answeredOne ∧
      commentedTokens.map Token.lexeme = answeredOne ∧
      closedTokens.map Token.lexeme = answeredOne) ∧
    (SolverOutput.frame "sat ((define-fun x () Int 1))").AgreeOn answeredOne
      (SolverOutput.frame "sat\n( ; one\n(define-fun x () Int 1))") ∧
    (SolverOutput.frame "sat ; one\n((define-fun x () Int 1))").Obstructs
      answeredOne ∧
    (SolverOutput.frame "sat ((define-fun x () Int 1)) ; (one)").Obstructs
      answeredOne ∧
    declaredConstant.formulaRead = true ∧
    (declaredConstant.readModel "sat ((define-fun x () Int 1))").fst.isOk =
      true ∧
    AlikeResults (declaredConstant.readModel "sat ((define-fun x () Int 1))")
      (declaredConstant.readModel "sat\n( ; one\n(define-fun x () Int 1))") ∧
    declaredConstant.Refuses
      (declaredConstant.readModel "sat ; one\n((define-fun x () Int 1))") ∧
    declaredConstant.Refuses
      (declaredConstant.readModel "sat ((define-fun x () Int 1)) ; (one)") := by
  have scanned (text : Text)
      (faultless : (tokenize text).toOption.map (List.map Token.lexeme) =
        some answeredOne) :
      ∃ tokens, tokenize text = .ok tokens ∧
        tokens.map Token.lexeme = answeredOne := by
    obtain ⟨tokens, tokenized, lexemes⟩ := Option.map_eq_some_iff.mp faultless
    exact ⟨tokens, Outcome.toOption_eq_some_iff.mp tokenized, lexemes⟩
  obtain ⟨tokens, plain, lexemes⟩ :=
    scanned "sat ((define-fun x () Int 1))" (by decide +kernel)
  obtain ⟨otherTokens, spread, otherLexemes⟩ :=
    scanned "sat\n( ; one\n(define-fun x () Int 1))" (by decide +kernel)
  obtain ⟨commentedTokens, commented, commentedLexemes⟩ :=
    scanned "sat ; one\n((define-fun x () Int 1))" (by decide +kernel)
  obtain ⟨closedTokens, closed, closedLexemes⟩ :=
    scanned "sat ((define-fun x () Int 1)) ; (one)" (by decide +kernel)
  have wraps : WrapsCommands answeredOne :=
    ⟨[], [definedAsOne], .nothing, by decide +kernel, rfl⟩
  have agree :
      (SolverOutput.frame "sat ((define-fun x () Int 1))").AgreeOn answeredOne
      (SolverOutput.frame "sat\n( ; one\n(define-fun x () Int 1))") :=
    ⟨fun _ => by decide +kernel, fun _ => by decide +kernel,
      fun _ => .inr ⟨wraps, by decide +kernel, by decide +kernel⟩⟩
  have hidden :
      (SolverOutput.frame "sat ; one\n((define-fun x () Int 1))").Obstructs
        answeredOne :=
    .hidden (by decide +kernel) (by decide +kernel)
  have overrun :
      (SolverOutput.frame "sat ((define-fun x () Int 1)) ; (one)").Obstructs
        answeredOne :=
    .overrun (by decide +kernel) wraps (by decide +kernel) (by decide +kernel)
  have ready : declaredConstant.formulaRead = true := by decide +kernel
  have alike := (readModel_layout declaredConstant plain).1 _ _ spread
    (otherLexemes.trans lexemes.symm) (lexemes ▸ agree)
  have unread :=
    (readModel_layout declaredConstant commented).2 ready
      (commentedLexemes ▸ hidden)
  have overread :=
    (readModel_layout declaredConstant closed).2 ready (closedLexemes ▸ overrun)
  exact ⟨⟨tokens, otherTokens, commentedTokens, closedTokens, plain, spread,
    commented, closed, lexemes, otherLexemes, commentedLexemes, closedLexemes⟩,
    agree, hidden, overrun, ready, by decide +kernel, alike, unread, overread⟩

end Session

end ModelAudit
