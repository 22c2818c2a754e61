import Mathlib.Data.List.Infix
import Mathlib.Tactic.ByContra
import ModelAudit.Proofs.Outcome
import ModelAudit.SExpr.Reader

/-!
# Reading and balanced parentheses

Tokens are grouped into expressions if and only if their parentheses are
balanced, and what is read spells the tokens again. Otherwise the fault names a
parenthesis without partner: the first closing one, or else the last opening
one.
-/

namespace ModelAudit

namespace Token

def isOpening (token : Token) : Bool :=
  token.lexeme = .leftParenthesis

def isClosing (token : Token) : Bool :=
  token.lexeme = .rightParenthesis

/-- What an expression keeps of a token. The place of a closing parenthesis is
not among it. -/
def kept (token : Token) : Lexeme × Option Position :=
  (token.lexeme, if token.isClosing then none else some token.position)

end Token

namespace SExpr

mutual

/-- The tokens of an expression with its parentheses, as far as it keeps
them. -/
def spelling : SExpr → List (Lexeme × Option Position)
  | atom leaf position => [(.atom leaf, some position)]
  | list items position =>
    (.leftParenthesis, some position) :: spellingOfAll items ++
      [(.rightParenthesis, none)]

def spellingOfAll : List SExpr → List (Lexeme × Option Position)
  | [] => []
  | expression :: expressions =>
    spelling expression ++ spellingOfAll expressions

end

theorem spellingOfAll_append (left right : List SExpr) :
    spellingOfAll (left ++ right) =
      spellingOfAll left ++ spellingOfAll right := by
  induction left with
  | nil => rfl
  | cons expression expressions inductionHypothesis =>
      rw [List.cons_append, spellingOfAll, inductionHypothesis, spellingOfAll,
        List.append_assoc]

end SExpr

namespace Reader

/-! ## Balanced parentheses -/

def openings (tokens : List Token) : Nat :=
  tokens.countP Token.isOpening

def closings (tokens : List Token) : Nat :=
  tokens.countP Token.isClosing

section Counts

@[simp]
theorem openings_nil : openings [] = 0 :=
  rfl

@[simp]
theorem closings_nil : closings [] = 0 :=
  rfl

@[simp]
theorem openings_append (left right : List Token) :
    openings (left ++ right) = openings left + openings right :=
  List.countP_append

@[simp]
theorem closings_append (left right : List Token) :
    closings (left ++ right) = closings left + closings right :=
  List.countP_append

variable {token : Token} (tokens : List Token)

theorem openings_cons :
    openings (token :: tokens) = openings tokens + if token.isOpening then 1
      else 0 :=
  List.countP_cons

theorem closings_cons :
    closings (token :: tokens) = closings tokens + if token.isClosing then 1
      else 0 :=
  List.countP_cons

theorem not_isClosing_of_isOpening (opening : token.isOpening = true) :
    token.isClosing = false := by
  simp_all [Token.isOpening, Token.isClosing]

theorem openings_of_isOpening (opening : token.isOpening = true) :
    openings (token :: tokens) = openings tokens + 1 := by
  rw [openings_cons, if_pos opening]

theorem closings_of_isOpening (opening : token.isOpening = true) :
    closings (token :: tokens) = closings tokens := by
  simp [closings_cons, not_isClosing_of_isOpening opening]

theorem closings_of_isClosing (closing : token.isClosing = true) :
    closings (token :: tokens) = closings tokens + 1 := by
  rw [closings_cons, if_pos closing]

theorem openings_of_isClosing (closing : token.isClosing = true) :
    openings (token :: tokens) = openings tokens := by
  have other : token.isOpening = false := by
    rw [← Bool.not_eq_true]
    intro opening
    rw [not_isClosing_of_isOpening opening] at closing
    cases closing
  simp [openings_cons, other]

end Counts

/-- No prefix closes more lists than it opens, and as many lists are closed as
opened. -/
structure Balanced (tokens : List Token) : Prop where
  bounded : ∀ before, before <+: tokens → closings before ≤ openings before
  complete : closings tokens = openings tokens

variable {tokens before after inside outer : List Token}
  {token left right : Token}

theorem balanced_nil : Balanced [] where
  bounded before isPrefix := by rw [List.prefix_nil.mp isPrefix]; rfl
  complete := rfl

theorem balanced_atom {leaf : Atom} (isAtom : token.lexeme = .atom leaf) :
    Balanced [token] := by
  have opening : token.isOpening = false := by simp [Token.isOpening, isAtom]
  have closing : token.isClosing = false := by simp [Token.isClosing, isAtom]
  refine ⟨fun before isPrefix => ?_,
    by simp [openings_cons, closings_cons, opening, closing]⟩
  rcases List.prefix_cons_iff.mp isPrefix with rfl | ⟨rest, rfl, nothing⟩
  · rfl
  · rw [List.prefix_nil.mp nothing]
    simp [closings_cons, closing]

theorem Balanced.append (first : Balanced before) (second : Balanced after) :
    Balanced (before ++ after) := by
  refine ⟨fun part isPrefix => ?_, ?_⟩
  · rcases List.prefix_or_prefix_of_prefix isPrefix
      (List.prefix_append before after) with
      shorter | ⟨rest, rfl⟩
    · exact first.bounded part shorter
    · have ofRest :=
        second.bounded rest ((List.prefix_append_right_inj before).mp isPrefix)
      have complete := first.complete
      simp only [closings_append, openings_append]
      omega
  · rw [closings_append, openings_append, first.complete, second.complete]

/-- Balanced tokens between two parentheses. -/
theorem Balanced.enclose (balanced : Balanced inside)
    (opening : left.isOpening = true) (closing : right.isClosing = true) :
    Balanced (left :: inside ++ [right]) := by
  have complete := balanced.complete
  refine ⟨fun part isPrefix => ?_, ?_⟩
  · rcases List.prefix_cons_iff.mp isPrefix with rfl | ⟨rest, rfl, ofRest⟩
    · rfl
    rw [closings_of_isOpening _ opening, openings_of_isOpening _ opening]
    rcases List.prefix_concat_iff.mp ofRest with rfl | shorter
    · simp only [closings_append, openings_append,
        closings_of_isClosing _ closing, closings_nil]
      omega
    · have nested := balanced.bounded rest shorter
      omega
  · simp only [List.cons_append, closings_append, openings_append,
      closings_of_isOpening _ opening, openings_of_isOpening _ opening,
      closings_of_isClosing _ closing, openings_of_isClosing _ closing,
      closings_nil, openings_nil]
    omega

/-! ## Partners -/

/-- Among these tokens stands the partner of a closing parenthesis right after
them. -/
def HasOpening (before : List Token) : Prop :=
  ∃ outer left inside, before = outer ++ left :: inside ∧
    left.isOpening = true ∧ Balanced inside

/-- Among these tokens stands the partner of an opening parenthesis right before
them. -/
def HasClosing (after : List Token) : Prop :=
  ∃ inside right rest, after = inside ++ right :: rest ∧
    right.isClosing = true ∧ Balanced inside

/-- The first prefix with a property, together with the element that completes
it. -/
theorem exists_first_prefix {Element : Type} (property : List Element → Prop)
    {elements : List Element} (empty : ¬property [])
    (holds : property elements) :
    ∃ inside last rest, elements = inside ++ last :: rest ∧
      property (inside ++ [last]) ∧
      ∀ part, part <+: inside → ¬property part := by
  induction elements generalizing property with
  | nil => exact absurd holds empty
  | cons first others inductionHypothesis =>
      by_cases single : property [first]
      · refine ⟨[], first, others, rfl, single, fun part isPrefix => ?_⟩
        rwa [List.prefix_nil.mp isPrefix]
      · obtain ⟨inside, last, rest, rfl, complete, earlier⟩ :=
          inductionHypothesis
            (fun part => property (first :: part)) single holds
        refine ⟨first :: inside, last, rest, rfl, complete,
          fun part isPrefix => ?_⟩
        rcases List.prefix_cons_iff.mp isPrefix with rfl | ⟨tail, rfl, ofTail⟩
        · exact empty
        · exact earlier tail ofTail

/-- Where more lists are closed than opened, some list is closed that was opened
before. -/
theorem hasClosing_of_lt (excess : openings after < closings after) :
    HasClosing after := by
  obtain ⟨inside, right, rest, rfl, exceeds, earlier⟩ :=
    exists_first_prefix (fun part => openings part < closings part)
      (by simp) excess
  have bounded (part : List Token) (isPrefix : part <+: inside) :
      closings part ≤ openings part :=
    Nat.le_of_not_lt (earlier part isPrefix)
  have whole := bounded inside (List.prefix_refl inside)
  simp only [openings_append, closings_append, openings_cons, closings_cons,
    openings_nil, closings_nil, Nat.zero_add] at exceeds
  have closing : right.isClosing = true := by
    by_contra other
    simp only [other, if_false] at exceeds
    omega
  rw [if_pos closing] at exceeds
  exact ⟨inside, right, rest, rfl, closing, bounded, by omega⟩

/-- Where more lists are opened than closed, some list is opened that is closed
after. -/
theorem hasOpening_of_lt (excess : closings before < openings before) :
    HasOpening before := by
  -- The shortest suffix that opens more lists than it closes is the first such
  -- prefix in reverse.
  have mirrored (part : List Token) :
      openings part.reverse = openings part ∧
      closings part.reverse = closings part :=
    ⟨List.countP_reverse, List.countP_reverse⟩
  obtain ⟨inside, left, rest, split, exceeds, earlier⟩ :=
    exists_first_prefix (fun part => closings part < openings part) (by simp)
      (show closings before.reverse < openings before.reverse by
        simpa only [mirrored] using excess)
  have bounded (part : List Token) (isPrefix : part <+: inside) :
      openings part ≤ closings part :=
    Nat.le_of_not_lt (earlier part isPrefix)
  have whole := bounded inside (List.prefix_refl inside)
  simp only [openings_append, closings_append, openings_cons, closings_cons,
    openings_nil, closings_nil, Nat.zero_add] at exceeds
  have opening : left.isOpening = true := by
    by_contra other
    simp only [other, if_false] at exceeds
    omega
  have complete : closings inside = openings inside := by
    simp only [opening, if_true] at exceeds
    omega
  refine ⟨rest.reverse, left, inside.reverse, ?_, opening,
    fun part ⟨suffix, split⟩ => ?_, ?_⟩
  · rw [← List.reverse_reverse before, split]
    simp
  · have ofSuffix :=
      bounded suffix.reverse ⟨part.reverse, by rw [← List.reverse_append, split,
      List.reverse_reverse]⟩
    have total := congrArg openings split
    have closed := congrArg closings split
    simp only [openings_append, closings_append, mirrored]
      at total closed ofSuffix
    omega
  · rw [(mirrored inside).1, (mirrored inside).2, complete]

theorem Balanced.not_hasOpening (balanced : Balanced before) :
    ¬HasOpening before := by
  rintro ⟨outer, left, inside, rfl, opening, nested⟩
  have ofOuter := balanced.bounded outer (List.prefix_append _ _)
  have total := balanced.complete
  rw [closings_append, openings_append, closings_of_isOpening _ opening,
    openings_of_isOpening _ opening, nested.complete] at total
  omega

theorem Balanced.not_hasClosing (balanced : Balanced after) :
    ¬HasClosing after := by
  rintro ⟨inside, right, rest, rfl, closing, nested⟩
  have bounded :=
    balanced.bounded (inside ++ [right]) ⟨rest, (List.append_cons _ _ _).symm⟩
  rw [closings_append, openings_append, closings_of_isClosing _ closing,
    openings_of_isClosing _ closing, nested.complete] at bounded
  simp only [closings_nil, openings_nil] at bounded
  omega

/-- The token is the first closing parenthesis without partner. -/
def FirstUnopened (tokens : List Token) (token : Token) : Prop :=
  ∃ before after, tokens = before ++ token :: after ∧ token.isClosing = true ∧
    ¬HasOpening before ∧
    ∀ earlier other later, before = earlier ++ other :: later →
      other.isClosing = true →
      HasOpening earlier

/-- All closing parentheses have partners. -/
def AllOpened (tokens : List Token) : Prop :=
  ∀ before token after, tokens = before ++ token :: after →
    token.isClosing = true →
    HasOpening before

/-- The token is the last opening parenthesis without partner. -/
def LastUnclosed (tokens : List Token) (token : Token) : Prop :=
  ∃ before after, tokens = before ++ token :: after ∧ token.isOpening = true ∧
    ¬HasClosing after ∧
    ∀ earlier other later, after = earlier ++ other :: later →
      other.isOpening = true →
      HasClosing later

/-- If no prefix closes more lists than it opens, every closing parenthesis has
a partner. -/
theorem allOpened_of_bounded
    (bounded : ∀ before, before <+: tokens →
      closings before ≤ openings before) :
    AllOpened tokens := by
  rintro before token after rfl closing
  apply hasOpening_of_lt
  have here :=
    bounded (before ++ [token]) ⟨after, (List.append_cons _ _ _).symm⟩
  rw [closings_append, openings_append, closings_of_isClosing _ closing,
    openings_of_isClosing _ closing] at here
  simp only [closings_nil, openings_nil] at here
  omega

theorem Balanced.hasClosing (balanced : Balanced (before ++ token :: after))
    (opening : token.isOpening = true) : HasClosing after := by
  apply hasClosing_of_lt
  have ofBefore := balanced.bounded before (List.prefix_append _ _)
  have total := balanced.complete
  rw [closings_append, openings_append, closings_of_isOpening _ opening,
    openings_of_isOpening _ opening] at total
  omega

/-- A closing parenthesis behind balanced tokens has no partner, and none before
it lacks one. -/
theorem firstUnopened_of_balanced (balanced : Balanced before)
    (closing : token.isClosing = true) :
    FirstUnopened (before ++ token :: after) token :=
  ⟨before, after, rfl, closing, balanced.not_hasOpening,
    allOpened_of_bounded balanced.bounded⟩

theorem lastUnclosed_of_balanced (balanced : Balanced after)
    (opening : token.isOpening = true) :
    LastUnclosed (before ++ token :: after) token := by
  refine ⟨before, after, rfl, opening, balanced.not_hasClosing, ?_⟩
  rintro earlier other later rfl opens
  exact balanced.hasClosing opens

/-! ## The lists that are open -/

/-- The tokens open lists at these positions, innermost first, and balance in
between. -/
inductive Opens : List Position → List Token → Prop
  | nothing {tokens : List Token} : Balanced tokens → Opens [] tokens
  | more {positions : List Position} {before inside : List Token}
      {left : Token} :
      Opens positions before → left.isOpening = true → Balanced inside →
      Opens (left.position :: positions) (before ++ left :: inside)

variable {positions : List Position}

theorem Opens.split {position : Position}
    (opens : Opens (position :: positions) tokens) :
    ∃ before left inside, tokens = before ++ left :: inside ∧
      left.position = position ∧
      Opens positions before ∧ left.isOpening = true ∧ Balanced inside := by
  cases opens with
  | more outside opening nested =>
    exact ⟨_, _, _, rfl, rfl, outside, opening, nested⟩

theorem Opens.append (opens : Opens positions before)
    (balanced : Balanced after) :
    Opens positions (before ++ after) := by
  cases opens with
  | nothing first => exact .nothing (first.append balanced)
  | more outside opening nested =>
      rw [List.append_assoc, List.cons_append]
      exact .more outside opening (nested.append balanced)

/-- Where lists are open, no prefix closes more of them than it opens. -/
theorem Opens.bounded (opens : Opens positions tokens) :
    ∀ part, part <+: tokens → closings part ≤ openings part := by
  induction opens with
  | nothing balanced => exact balanced.bounded
  | @more _ before inside left _ opening nested inductionHypothesis =>
      intro part isPrefix
      rcases List.prefix_or_prefix_of_prefix isPrefix
        (List.prefix_append before _) with
        shorter | ⟨rest, rfl⟩
      · exact inductionHypothesis part shorter
      have ofBefore := inductionHypothesis before (List.prefix_refl before)
      rw [closings_append, openings_append]
      rcases List.prefix_cons_iff.mp
        ((List.prefix_append_right_inj before).mp isPrefix) with
        rfl | ⟨others, rfl, ofOthers⟩
      · exact ofBefore
      · have ofInside := nested.bounded others ofOthers
        rw [closings_of_isOpening _ opening, openings_of_isOpening _ opening]
        omega

/-! ## Grouping tokens -/

def OpenList.spelling (inner : OpenList) : List (Lexeme × Option Position) :=
  (.leftParenthesis, some inner.position) :: SExpr.spellingOfAll
    inner.items.reverse

namespace State

/-- The tokens of all that has been collected. -/
def spelling (state : State) : List (Lexeme × Option Position) :=
  SExpr.spellingOfAll state.top.reverse ++ state.opened.reverse.flatMap
    OpenList.spelling

/-- What a state has collected are the tokens that were consumed. -/
structure Collects (state : State) (consumed : List Token) : Prop where
  opens : Opens (state.opened.map OpenList.position) consumed
  spells : state.spelling = consumed.map Token.kept

variable {state next : State} {consumed : List Token}

theorem map_position_add (state : State) (expression : SExpr) :
    (state.add expression).opened.map OpenList.position =
      state.opened.map OpenList.position := by
  unfold add
  split <;> next opened => simp [opened]

theorem spelling_add (state : State) (expression : SExpr) :
    (state.add expression).spelling =
      state.spelling ++ expression.spelling := by
  unfold add
  split
  · next opened =>
    simp [spelling, opened, SExpr.spellingOfAll_append, SExpr.spellingOfAll]
  · next inner outer opened =>
    simp [spelling, opened, OpenList.spelling, SExpr.spellingOfAll_append,
      SExpr.spellingOfAll]

theorem collects_start : Collects ⟨[], []⟩ [] :=
  ⟨.nothing balanced_nil, rfl⟩

/-- A token is refused only if it closes a list while none is open. -/
theorem Collects.step (collects : state.Collects consumed) (token : Token) :
    (∃ next, state.step token = .ok next ∧
      next.Collects (consumed ++ [token])) ∨
      Balanced consumed ∧ token.isClosing = true ∧
        state.step token = .error ⟨.unbalanced, token.position.place⟩ := by
  obtain ⟨opens, spells⟩ := collects
  cases kind : token.lexeme with
  | leftParenthesis =>
      have opening : token.isOpening = true := by simp [Token.isOpening, kind]
      refine .inl ⟨⟨⟨token.position, []⟩ :: state.opened, state.top⟩,
        by rw [State.step, kind], ?_, ?_⟩
      · exact .more opens opening balanced_nil
      · rw [List.map_append, ← spells]
        simp [spelling, OpenList.spelling, SExpr.spellingOfAll, Token.kept,
          not_isClosing_of_isOpening opening, kind]
  | rightParenthesis =>
      have closing : token.isClosing = true := by simp [Token.isClosing, kind]
      rw [State.step, kind]
      cases opened : state.opened with
      | nil =>
          rw [opened] at opens
          cases opens with
          | nothing balanced => exact .inr ⟨balanced, closing, rfl⟩
      | cons inner outer =>
          refine .inl ⟨_, rfl, ?_, ?_⟩
          · rw [map_position_add]
            rw [opened, List.map_cons] at opens
            obtain ⟨before, left, inside, rfl, _, outside, opening, nested⟩ :=
              opens.split
            rw [List.append_assoc]
            exact outside.append (nested.enclose opening closing)
          · rw [spelling_add, List.map_append, ← spells]
            simp [spelling, opened, OpenList.spelling, SExpr.spelling,
              Token.kept, closing, kind]
  | atom leaf =>
      refine .inl ⟨state.add (.atom leaf token.position),
        by rw [State.step, kind], ?_, ?_⟩
      · rw [map_position_add]
        exact opens.append (balanced_atom kind)
      · rw [spelling_add, List.map_append, ← spells]
        simp [SExpr.spelling, Token.kept, Token.isClosing, kind]

/-- Either all tokens are consumed, or one of them closes a list that nothing
has opened. -/
theorem Collects.run (collects : state.Collects consumed)
    (tokens : List Token) :
    (∃ final, tokens.foldlM State.step state = .ok final ∧
        final.Collects (consumed ++ tokens)) ∨
      ∃ before token after, tokens = before ++ token :: after ∧
        Balanced (consumed ++ before) ∧
        token.isClosing = true ∧
        tokens.foldlM State.step state =
          .error ⟨.unbalanced, token.position.place⟩ := by
  induction tokens generalizing state consumed with
  | nil => exact .inl ⟨state, rfl, by rwa [List.append_nil]⟩
  | cons token tokens inductionHypothesis =>
      rw [List.foldlM_cons]
      rcases collects.step token
        with ⟨next, stepped, later⟩ | ⟨balanced, closing, refused⟩
      · rw [stepped, Outcome.ok_bind]
        rcases inductionHypothesis later with ⟨final, run, collected⟩ |
          ⟨before, other, after, rfl, balanced, closing, refused⟩
        · exact .inl ⟨final, run, by rwa [List.append_cons]⟩
        · exact .inr ⟨token :: before, other, after, rfl,
            by rwa [List.append_cons], closing, refused⟩
      · exact .inr ⟨[], token, tokens, rfl, by rwa [List.append_nil], closing,
          by rw [refused]; rfl⟩

end State

/-- How grouping ends: all lists are closed, or a closing parenthesis has no
partner, or lists are open at the end. -/
inductive Grouping (tokens : List Token) : Prop
  | complete (expressions : List SExpr) :
      Balanced tokens → group tokens = .ok expressions →
      SExpr.spellingOfAll expressions = tokens.map Token.kept → Grouping tokens
  | unopened (token : Token) :
      FirstUnopened tokens token →
      group tokens = .error ⟨.unbalanced, token.position.place⟩ →
      Grouping tokens
  | unclosed (token : Token) :
      AllOpened tokens → LastUnclosed tokens token →
      group tokens = .error ⟨.unclosed, token.position.place⟩ → Grouping tokens

/-- Whatever the tokens are, grouping them ends in one of the three ways. -/
theorem grouping (tokens : List Token) : Grouping tokens := by
  rcases State.collects_start.run tokens with ⟨final, run, opens, spells⟩ |
    ⟨before, token, after, rfl, balanced, closing, refused⟩
  · cases opened : final.opened with
    | nil =>
        rw [opened] at opens
        cases opens with
        | nothing balanced =>
            refine .complete final.top.reverse balanced
              (by simp [group, run, opened]) ?_
            simpa [State.spelling, opened] using spells
    | cons inner outer =>
        have allOpened := allOpened_of_bounded opens.bounded
        rw [opened, List.map_cons] at opens
        obtain ⟨before, left, inside, split, position, _, opening, nested⟩ :=
          opens.split
        obtain rfl : tokens = before ++ left :: inside := split
        refine .unclosed left allOpened
          (lastUnclosed_of_balanced nested opening) ?_
        simp [group, run, opened, position]
  · exact .unopened token (firstUnopened_of_balanced balanced closing)
      (by rw [group, refused]; rfl)

theorem Balanced.not_firstUnopened (balanced : Balanced tokens) :
    ¬FirstUnopened tokens token := by
  rintro ⟨before, after, split, closing, alone, _⟩
  exact alone (allOpened_of_bounded balanced.bounded before token after
    split closing)

theorem Balanced.not_lastUnclosed (balanced : Balanced tokens) :
    ¬LastUnclosed tokens token := by
  rintro ⟨before, after, rfl, opening, alone, _⟩
  exact alone (balanced.hasClosing opening)

end Reader

open Reader

/-- Once a text is split into tokens, it is read if and only if its parentheses
are balanced. Its expressions spell the tokens, and lists keep the places of
their opening parentheses. Otherwise the fault names the first closing
parenthesis without partner, or if all closing ones have partners, the last
opening one without. -/
theorem readExpressions_iff_balanced {text : Text} {tokens : List Token}
    (tokenized : tokenize text = .ok tokens) :
    ((∃ expressions, readExpressions text = .ok expressions) ↔
      Balanced tokens) ∧
      (∀ expressions, readExpressions text = .ok expressions →
        SExpr.spellingOfAll expressions = tokens.map Token.kept) ∧
      (¬Balanced tokens →
        (∃ token, FirstUnopened tokens token ∧
          readExpressions text = .error ⟨.unbalanced, token.position.place⟩) ∨
        AllOpened tokens ∧ ∃ token, LastUnclosed tokens token ∧
          readExpressions text = .error ⟨.unclosed, token.position.place⟩) := by
  have grouped : readExpressions text = group tokens := by
    rw [readExpressions, tokenized, Outcome.ok_bind]
  rw [grouped]
  rcases grouping tokens
    with ⟨expressions, balanced, read, spells⟩ | ⟨token, first, fault⟩ |
    ⟨token, allOpened, last, fault⟩
  · rw [read]
    refine ⟨⟨fun _ => balanced, fun _ => ⟨expressions, rfl⟩⟩, ?_,
      fun unbalanced => ?_⟩
    · intro others same
      rw [← Except.ok.inj same, spells]
    · exact absurd balanced unbalanced
  · rw [fault]
    refine ⟨⟨fun ⟨_, read⟩ => ?_, fun balanced => ?_⟩, fun _ read => ?_,
      fun _ => ?_⟩
    · cases read
    · exact absurd first balanced.not_firstUnopened
    · cases read
    · exact .inl ⟨token, first, rfl⟩
  · rw [fault]
    refine ⟨⟨fun ⟨_, read⟩ => ?_, fun balanced => ?_⟩, fun _ read => ?_,
      fun _ => ?_⟩
    · cases read
    · exact absurd last balanced.not_lastUnclosed
    · cases read
    · exact .inr ⟨allOpened, token, last, rfl⟩

def barredTokens : List Token :=
  [⟨.leftParenthesis, ⟨1, 1, 0⟩⟩, ⟨.atom (.symbol "p" false), ⟨1, 2, 1⟩⟩,
    ⟨.leftParenthesis, ⟨1, 4, 3⟩⟩, ⟨.atom (.symbol ")" true), ⟨1, 5, 4⟩⟩,
    ⟨.rightParenthesis, ⟨1, 8, 7⟩⟩, ⟨.rightParenthesis, ⟨2, 1, 9⟩⟩]

/-- The parenthesis between bars closes nothing. Without the last parenthesis
the first list is open at the end. -/
theorem barredTokens_balanced :
    (∃ expressions, readExpressions "(p (|)|)\n)" = .ok expressions ∧
      SExpr.spellingOfAll expressions = barredTokens.map Token.kept) ∧
      ∃ token, LastUnclosed barredTokens.dropLast token ∧
        readExpressions "(p (|)|)\n" =
          .error ⟨.unclosed, token.position.place⟩ := by
  have complete : tokenize "(p (|)|)\n)" = .ok barredTokens :=
    Outcome.toOption_eq_some_iff.mp (by decide +kernel)
  have cut : tokenize "(p (|)|)\n" = .ok barredTokens.dropLast :=
    Outcome.toOption_eq_some_iff.mp (by decide +kernel)
  obtain ⟨read, spells, _⟩ := readExpressions_iff_balanced complete
  obtain ⟨cutRead, _, faulty⟩ := readExpressions_iff_balanced cut
  constructor
  · have isRead : (readExpressions "(p (|)|)\n)").toOption.isSome = true := by
      decide +kernel
    obtain ⟨expressions, isRead⟩ := Option.isSome_iff_exists.mp isRead
    have isRead := Outcome.toOption_eq_some_iff.mp isRead
    exact ⟨expressions, isRead, spells expressions isRead⟩
  · have cause : (match readExpressions "(p (|)|)\n" with
        | .error fault => decide (fault.cause = .unclosed)
        | .ok _ => false) = true := by
      decide +kernel
    have unbalanced : ¬Balanced barredTokens.dropLast := by
      intro balanced
      obtain ⟨expressions, isRead⟩ := cutRead.mpr balanced
      rw [isRead] at cause
      cases cause
    rcases faulty unbalanced with ⟨token, _, fault⟩ | ⟨_, last⟩
    · rw [fault] at cause
      cases cause
    · exact last

end ModelAudit
