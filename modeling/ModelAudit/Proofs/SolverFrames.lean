import ModelAudit.Proofs.Outlines
import ModelAudit.Proofs.PlacedCommands

/-!
# The frame of a solver's output

The wrappers around a model are removed from the text of an output, before the
text is cut into tokens. What this does to the tokens depends on them and on the
frame of the output: on where comments stand next to the wrappers, but not on
white space or on other comments.
-/

namespace ModelAudit

namespace SolverOutput

open Lexer

/-! ## Frames -/

/-- What else than tokens is seen when wrappers are removed from an output. -/
structure Frame where
  /-- A comment stands before the first token. -/
  beforeFirst : Bool
  /-- A comment stands right after the first token. -/
  afterFirst : Bool
  /-- A comment stands right after the second token. -/
  afterSecond : Bool
  /-- A comment stands after the last token. -/
  afterLast : Bool
  /-- The last visible character is a closing parenthesis, in a comment or
  not. -/
  closed : Bool
deriving DecidableEq

def opensWithComment (outlined : Outline) : Bool :=
  outlined.head? = some none

def afterToken (outlined : Outline) : Outline :=
  (outlined.dropWhile Option.isNone).tail

def frame (output : Text) : Frame where
  beforeFirst := opensWithComment (outline output)
  afterFirst := opensWithComment (afterToken (outline output))
  afterSecond := opensWithComment (afterToken (afterToken (outline output)))
  afterLast := (outline output).getLast? = some none
  closed := output.strip.endsWith ")"

/-! ## Wrappers in lists of tokens -/

/-- The plain symbol at the start of a list of lexemes. -/
def leadingWord : List Lexeme → Text
  | [] => []
  | lexeme :: _ => wordOf lexeme

def sat : Lexeme :=
  .atom (.symbol "sat" false)

/-- Removes the word `model` at the start, also from a symbol that goes on after
it. -/
def withoutModelWord (lexemes : List Lexeme) : List Lexeme :=
  if (leadingWord lexemes).startsWithWord "model" then
    if leadingWord lexemes = "model" then lexemes.tail
    else .atom (.symbol ((leadingWord lexemes).drop 5) false) :: lexemes.tail
  else lexemes

/-- What is left of an opening parenthesis and the lexemes after it. -/
def Frame.unwrapped (frame : Frame) (inner : List Lexeme) : List Lexeme :=
  let inside := if frame.afterLast then inner else inner.dropLast
  if frame.closed && !frame.afterSecond &&
      (inside.head? =
        some .leftParenthesis || (leadingWord inside).startsWithWord "model")
          then
    withoutModelWord inside
  else .leftParenthesis :: inner

/-- What is left of the lexemes of an output in a frame. -/
def Frame.remaining (frame : Frame) (lexemes : List Lexeme) :
    Except NoModelCause (List Lexeme) :=
  if frame.beforeFirst then .ok lexemes
  else
    match otherAnswer? (leadingWord lexemes) with
    | some answer => .error (.answered answer)
    | none =>
      if lexemes = [sat] && !frame.afterFirst then .error .missing
      else if lexemes.take 2 = [sat, .leftParenthesis] && !frame.afterFirst then
        .ok (frame.unwrapped (lexemes.drop 2))
      else .ok (withoutModelWord lexemes)

/-! ## Outlines and their lexemes -/

variable {text : Text} {outlined : Outline}

theorem openingWord_eq (visible : opensWithComment outlined = false) :
    openingWord outlined = leadingWord outlined.reduceOption := by
  cases outlined with
  | nil => rfl
  | cons entry later =>
      cases entry with
      | none => cases visible
      | some lexeme => rfl

theorem openingWord_of_comment (hidden : opensWithComment outlined = true) :
    openingWord outlined = [] := by
  obtain ⟨later, rfl⟩ := List.head?_eq_some_iff.mp (of_decide_eq_true hidden)
  rfl

theorem isPlain_model : IsPlain "model" := ⟨⟨'m', _, rfl, by decide⟩, by decide⟩

theorem isPlain_sat : IsPlain "sat" := ⟨⟨'s', _, rfl, by decide⟩, by decide⟩

theorem isPlain_unsat : IsPlain "unsat" := ⟨⟨'u', _, rfl, by decide⟩, by decide⟩

theorem isPlain_unknown : IsPlain "unknown" :=
  ⟨⟨'u', _, rfl, by decide⟩, by decide⟩

theorem renders_ok (outlines : Outlines text outlined) :
    Session.Renders (.ok text) (.ok outlined.reduceOption) := by
  obtain ⟨tokens, tokenized, lexemes⟩ := outlines.tokenize
  rw [← lexemes]
  exact .ok tokenized

/-! ## Texts and their outlines -/

theorem exists_of_openingWord {word : Text}
    (opening : openingWord outlined = word) (nonempty : word ≠ []) :
    ∃ later, outlined = some (.atom (.symbol word false)) :: later := by
  cases outlined with
  | nil => exact absurd opening.symm nonempty
  | cons entry later =>
      cases entry with
      | none => exact absurd opening.symm nonempty
      | some lexeme => exact ⟨later, by rw [eq_of_wordOf opening nonempty]⟩

/-- Removing the word `model` from a text changes its lexemes as it should. -/
theorem exists_dropModelWord (outlines : Outlines text outlined)
    (opens : ∀ point ∈ text.head?, point.isBlank = false)
    (visible : opensWithComment outlined = false) :
    ∃ next, Outlines (dropModelWord text) next ∧
      next.reduceOption = withoutModelWord outlined.reduceOption := by
  have starts := (outlines.startsWith_eq opens isPlain_model).2
  rw [openingWord_eq visible] at starts
  rw [dropModelWord, withoutModelWord, starts]
  split
  · next isModel =>
    obtain ⟨begins, outside⟩ := Bool.and_eq_true_iff.mp isModel
    obtain ⟨more, leading⟩ := List.isPrefixOf_iff_prefix.mp begins
    obtain ⟨later, rfl⟩ :=
      exists_of_openingWord ((openingWord_eq visible).trans leading.symm)
        (by simp [Text.ofString])
    obtain ⟨rest, rfl, breaks, following, _, points⟩ :=
      outlines.drop_symbol opens
    rw [← leading] at outside ⊢
    rw [List.append_assoc, List.drop_left' (by decide),
      List.drop_left' (by decide)]
    cases more with
    | nil =>
        rw [if_pos (List.append_nil _)]
        exact ⟨later, following.strip, rfl⟩
    | cons first more =>
        rw [List.drop_left' rfl] at outside
        rw [if_neg (by simp)]
        have points : ∀ point ∈ first :: more, isSymbolPoint point = true :=
          fun point member => points point (List.mem_append_right _ member)
        obtain ⟨isPoint, isPoints⟩ := List.forall_mem_cons.mp points
        -- A digit would go on the word `model`.
        have start : isSymbolStart first = true := by
          rw [isSymbolPoint, Bool.or_eq_true] at isPoint
          refine isPoint.resolve_right fun digit => ?_
          rw [Text.startsOutsideWord, isWord_of_isDigit digit] at outside
          cases outside
        exact ⟨_, (Outlines.symbol start isPoints breaks following).strip, rfl⟩
  · exact ⟨outlined, outlines, rfl⟩

theorem dropModelWord_of_ne (outlines : Outlines text outlined)
    (opens : ∀ point ∈ text.head?, point.isBlank = false)
    (noWord : openingWord outlined = []) : dropModelWord text = text := by
  have starts := (outlines.startsWith_eq opens isPlain_model).2
  rw [noWord] at starts
  rw [dropModelWord, starts]
  rfl

theorem head?_reduceOption (visible : opensWithComment outlined = false) :
    outlined.head? = outlined.reduceOption.head?.map some := by
  cases outlined with
  | nil => rfl
  | cons entry later =>
      cases entry with
      | none => cases visible
      | some lexeme => rfl

theorem startsWith_opening (text : Text) :
    text.startsWith "(" =
      decide (text.head? = some (CodePoint.ofChar '(')) := by
  cases text with
  | nil => rfl
  | cons point text =>
      show (CodePoint.ofChar '(' == point && true) = _
      rw [Bool.and_true, List.head?_cons, Bool.eq_iff_iff, beq_iff_eq,
        decide_eq_true_eq, Option.some.injEq, eq_comm]

theorem endsWith_closing (text : Text) :
    text.endsWith ")" =
      decide (text.getLast? = some (CodePoint.ofChar ')')) := by
  rw [Text.endsWith, Bool.eq_iff_iff, List.isSuffixOf_iff_suffix,
    decide_eq_true_eq, List.getLast?_eq_some_iff]
  exact exists_congr fun front => eq_comm

/-- A text opens with a list or with the word `model` where its lexemes do, if
no comment stands before them. -/
theorem opensModel_eq (outlines : Outlines text outlined)
    (opens : ∀ point ∈ text.head?, point.isBlank = false) :
    (text.startsWith "(" || text.startsWithWord "model") =
      (!opensWithComment outlined &&
          (outlined.reduceOption.head? = some .leftParenthesis ||
        (leadingWord outlined.reduceOption).startsWithWord "model")) := by
  have opening := head?_eq_opening_iff outlines opens
  have starts := (outlines.startsWith_eq opens isPlain_model).2
  rw [startsWith_opening, starts]
  cases visible : opensWithComment outlined with
  | true =>
      rw [of_decide_eq_true visible] at opening
      rw [openingWord_of_comment visible, decide_eq_false (by simp [opening])]
      rfl
  | false =>
      rw [head?_reduceOption visible] at opening
      rw [openingWord_eq visible, Bool.not_false, Bool.true_and]
      congr 1
      simpa using opening

/-- What is inside of parentheses, if it is closed by one. -/
theorem exists_inside {body : Text} {inner : Outline}
    (outlines : Outlines body inner)
    (closes : ∀ point ∈ body.getLast?, point.isBlank = false)
    (closed : body.getLast? = some (CodePoint.ofChar ')')) :
    ∃ inside, Outlines (Text.strip body.dropLast) inside ∧
      opensWithComment inside = opensWithComment inner ∧
      inside.reduceOption =
        if inner.getLast? = some none then inner.reduceOption
          else inner.reduceOption.dropLast := by
  rcases List.eq_nil_or_concat inner with rfl | ⟨earlier, entry, rfl⟩
  · rw [outlines.eq_nil_of_closes closes] at closed
    cases closed
  rw [List.concat_eq_append] at outlines ⊢
  rw [List.getLast?_concat]
  cases entry with
  | none =>
    exact ⟨_, (outlines.dropLast_comment closes closed).strip, rfl,
      by rw [if_pos rfl]⟩
  | some lexeme =>
      obtain rfl : lexeme = .rightParenthesis := by
        by_contra other
        exact outlines.getLast?_ne_closing closes other closed
      obtain ⟨front, rfl, before⟩ := outlines.drop_closing closes
      refine ⟨earlier, ?_, ?_, ?_⟩
      · rw [List.dropLast_concat]
        exact before.strip
      · cases earlier <;> rfl
      · rw [if_neg (by simp), List.reduceOption_append,
          List.reduceOption_singleton]
        exact (List.dropLast_concat).symm

/-- The outline of a text is in a frame whose fields say what stands after its
opening parenthesis. -/
structure Frame.Fits (frame : Frame) (body : Text) (inner : Outline) :
    Prop where
  afterSecond : frame.afterSecond = opensWithComment inner
  afterLast : frame.afterLast = decide (inner.getLast? = some none)
  closed : frame.closed = Text.endsWith ('(' :: body) ")"

/-- Removing parentheses and the word `model` from a text changes its lexemes as
the frame says. -/
theorem exists_unwrapped {frame : Frame} {body : Text} {inner : Outline}
    (outlines : Outlines body inner) (fits : frame.Fits body inner)
    (closes : ∀ point ∈ List.getLast? (CodePoint.ofChar '(' :: body),
      point.isBlank = false) :
    ∃ next, Outlines (dropModelWord (unwrapList ('(' :: body))) next ∧
      next.reduceOption = frame.unwrapped inner.reduceOption := by
  have whole :
      Outlines (CodePoint.ofChar '(' :: body)
        (some .leftParenthesis :: inner) :=
    .lexeme (recognize_opening body) rfl outlines
  have unchanged : dropModelWord ('(' :: body) = CodePoint.ofChar '(' :: body :=
    dropModelWord_of_ne whole (by rintro point ⟨⟩; decide) rfl
  rw [unwrapList, Frame.unwrapped, fits.closed, List.drop_one, List.tail_cons,
    endsWith_closing]
  by_cases closed :
    List.getLast? (CodePoint.ofChar '(' :: body) = some (CodePoint.ofChar ')')
  · have closedBody : body.getLast? = some (CodePoint.ofChar ')') := by
      cases body with
      | nil => exact absurd closed (by decide)
      | cons point body => rwa [List.getLast?_cons_cons] at closed
    rw [closed] at closes
    obtain ⟨inside, insideOutlines, sameOpening, lexemes⟩ :=
      exists_inside outlines (closedBody ▸ closes) closedBody
    have opens := (trimmed_strip body.dropLast).opens
    rw [closed, decide_eq_true rfl, Bool.true_and, Bool.true_and,
      opensModel_eq insideOutlines opens, fits.afterSecond, fits.afterLast,
      ← sameOpening]
    simp only [decide_eq_true_eq, ← lexemes]
    split
    · next model =>
      have visible : opensWithComment inside = false := by
        simpa using (Bool.and_eq_true_iff.mp model).1
      exact exists_dropModelWord insideOutlines opens visible
    · exact ⟨_, unchanged.symm ▸ whole, rfl⟩
  · rw [decide_eq_false closed, Bool.false_and, Bool.false_and, Bool.false_and,
      if_neg (by simp), if_neg (by simp), unchanged]
    exact ⟨_, whole, rfl⟩

/-! ## The text of a model -/

theorem otherAnswer?_eq (outlines : Outlines text outlined)
    (opens : ∀ point ∈ text.head?, point.isBlank = false) :
    otherAnswer? text = otherAnswer? (openingWord outlined) := by
  have unsat := (outlines.startsWith_eq opens isPlain_unsat).2
  have unknown := (outlines.startsWith_eq opens isPlain_unknown).2
  simp only [otherAnswer?, List.find?_cons, List.find?_nil, unsat, unknown]

theorem getLast?_strip
    (closes : ∀ point ∈ text.getLast?, point.isBlank = false) :
    text.strip.getLast? = text.getLast? := by
  by_cases empty : text.stripLeft = []
  · rw [Text.strip, empty, eq_nil_of_stripLeft closes empty]
    rfl
  · have sameLast : text.stripLeft.getLast? = text.getLast? := by
      obtain ⟨front, whole⟩ :=
        List.dropWhile_suffix (l := text) CodePoint.isBlank
      conv => rhs; rw [← whole]
      exact (List.getLast?_append_of_ne_nil _ empty).symm
    have solid := closes _ (sameLast ▸ List.getLast?_eq_some_getLast empty)
    rw [Text.strip, stripRight_of_getLast?
      (List.getLast?_eq_some_getLast empty) solid, sameLast]

theorem eq_sat_iff (outlines : Outlines text outlined)
    (trimmed : Trimmed text) : text = Text.ofString "sat" ↔
      outlined = [some sat] := by
  constructor
  · rintro rfl
    rw [← outline_eq outlines]
    decide +kernel
  · rintro rfl
    obtain ⟨rest, rfl, _, following, _⟩ := outlines.drop_symbol trimmed.opens
    rw [following.eq_nil_of_closes, List.append_nil]
    intro point member
    refine trimmed.closes point ?_
    rw [List.getLast?_append, Option.mem_def.mp member]
    rfl

/-- The answer is seen exactly if nothing stands between `sat` and the opening
parenthesis. -/
theorem startsWithAnsweredList_iff (outlines : Outlines text outlined)
    (opens : ∀ point ∈ text.head?, point.isBlank = false) :
    startsWithAnsweredList text = true ↔
      ∃ inner, outlined = some sat :: some .leftParenthesis :: inner := by
  have starts := (outlines.startsWith_eq opens isPlain_sat).1
  rw [startsWithAnsweredList, Bool.and_eq_true, decide_eq_true_eq]
  constructor
  · rintro ⟨begins, opening⟩
    rw [starts] at begins
    obtain ⟨more, word⟩ := List.isPrefixOf_iff_prefix.mp begins
    obtain ⟨later, rfl⟩ :=
      exists_of_openingWord word.symm (by simp [Text.ofString])
    obtain ⟨rest, rfl, _, following, _, points⟩ := outlines.drop_symbol opens
    rw [List.append_assoc, List.drop_left' (by decide)] at opening
    cases more with
    | nil =>
        have opensRest := not_accepts_of_mem_head? CodePoint.isBlank rest
        have isOpening :=
          (head?_eq_opening_iff following.stripLeft opensRest).mp opening
        obtain ⟨inner, rfl⟩ := List.head?_eq_some_iff.mp isOpening
        exact ⟨inner, rfl⟩
    | cons first more =>
        have isPoint := points first (by simp)
        have solid := isBlank_of_isFinal (isFinal_of_isSymbolPoint isPoint)
        rw [List.cons_append, Text.stripLeft,
          List.dropWhile_cons_of_neg (by simp [solid]), List.head?_cons]
            at opening
        obtain rfl := Option.some.inj opening
        exact absurd isPoint (by decide)
  · rintro ⟨inner, rfl⟩
    obtain ⟨rest, rfl, _, following, _⟩ := outlines.drop_symbol opens
    have opensRest := not_accepts_of_mem_head? CodePoint.isBlank rest
    refine ⟨starts.trans (show Text.startsWith "sat" "sat" = true by decide),
      ?_⟩
    rw [List.drop_left' (by decide)]
    exact (head?_eq_opening_iff following.stripLeft opensRest).mpr rfl

theorem exists_of_reduceOption {lexeme : Lexeme} {lexemes : List Lexeme}
    (visible : opensWithComment outlined = false)
    (reduced : outlined.reduceOption = lexeme :: lexemes) :
    ∃ later, outlined = some lexeme :: later ∧
      later.reduceOption = lexemes := by
  cases outlined with
  | nil => cases reduced
  | cons entry later =>
      cases entry with
      | none => cases visible
      | some other =>
          obtain ⟨rfl, rest⟩ := List.cons.inj reduced
          exact ⟨later, rfl, rest⟩

theorem eq_nil_of_reduceOption (visible : opensWithComment outlined = false)
    (reduced : outlined.reduceOption = []) : outlined = [] := by
  cases outlined with
  | nil => rfl
  | cons entry later =>
      cases entry with
      | none => cases visible
      | some other => cases reduced

theorem eq_singleton_iff {lexeme : Lexeme}
    (visible : opensWithComment outlined = false) :
    outlined = [some lexeme] ↔
      outlined.reduceOption = [lexeme] ∧
      opensWithComment (afterToken outlined) = false := by
  constructor
  · rintro rfl
    exact ⟨rfl, rfl⟩
  · rintro ⟨reduced, alone⟩
    obtain ⟨later, rfl, rest⟩ := exists_of_reduceOption visible reduced
    obtain rfl : later = [] := eq_nil_of_reduceOption alone rest
    rfl

/-- Two lexemes stand next to each other exactly if they come first and no
comment is between them. -/
theorem exists_pair_iff {first second : Lexeme}
    (visible : opensWithComment outlined = false) :
    (∃ inner, outlined = some first :: some second :: inner) ↔
      outlined.reduceOption.take 2 = [first, second] ∧
        opensWithComment (afterToken outlined) = false := by
  constructor
  · rintro ⟨inner, rfl⟩
    exact ⟨rfl, rfl⟩
  · rintro ⟨reduced, next⟩
    have split := List.take_append_drop 2 outlined.reduceOption
    rw [reduced, List.cons_append] at split
    obtain ⟨later, rfl, rest⟩ := exists_of_reduceOption visible split.symm
    obtain ⟨inner, rfl, _⟩ := exists_of_reduceOption next rest
    exact ⟨inner, rfl⟩

theorem frame_fits {output body : Text} {inner : Outline}
    (outlines : Outlines output (some sat :: some .leftParenthesis :: inner))
    (closed : output.strip.endsWith ")" = Text.endsWith ('(' :: body) ")") :
    (frame output).Fits body inner := by
  refine ⟨?_, ?_, closed⟩ <;> rw [frame, outline_eq outlines]
  · rfl
  · cases inner with
    | nil => rfl
    | cons entry inner => rw [List.getLast?_cons_cons, List.getLast?_cons_cons]

/-- What is left of an answer `sat` and a list. -/
theorem exists_answeredList {output : Text} {inner : Outline}
    (outlines : Outlines output (some sat :: some .leftParenthesis :: inner)) :
    ∃ next, Outlines
        (dropModelWord (unwrapList (Text.strip (output.strip.drop 3)))) next ∧
      next.reduceOption = (frame output).unwrapped inner.reduceOption := by
  have trimmed := trimmed_strip output
  obtain ⟨rest, model, _, following, _⟩ :=
    outlines.strip.drop_symbol trimmed.opens
  have nonempty : rest ≠ [] := by
    rintro rfl
    cases outlined_eq_nil following
  have sameLast : output.strip.getLast? = rest.getLast? := by
    rw [model, List.getLast?_append_of_ne_nil _ nonempty]
  have closes : ∀ point ∈ rest.getLast?, point.isBlank = false :=
    sameLast ▸ trimmed.closes
  obtain ⟨body, list, within⟩ :=
    following.strip.drop_opening (trimmed_strip rest).opens
  have fits : (frame output).Fits body inner := by
    refine frame_fits outlines ?_
    rw [← list, endsWith_closing, endsWith_closing, getLast?_strip closes,
      sameLast]
  rw [model, List.drop_left' (by decide), list]
  exact exists_unwrapped within fits (list ▸ (trimmed_strip rest).closes)

/-- Nothing is recognized in an output that opens with a comment. -/
theorem modelText_of_comment {output : Text}
    (outlines : Outlines output outlined)
    (hidden : opensWithComment outlined = true) :
    modelText output = .ok output.strip := by
  have trimmed := trimmed_strip output
  have noWord := openingWord_of_comment hidden
  have notSat : ¬output.strip = "sat" := by
    rw [eq_sat_iff outlines.strip trimmed]
    rintro rfl
    cases hidden
  have notList : ¬startsWithAnsweredList output.strip = true := by
    rw [startsWithAnsweredList_iff outlines.strip trimmed.opens]
    rintro ⟨inner, rfl⟩
    cases hidden
  unfold modelText
  dsimp only
  rw [otherAnswer?_eq outlines.strip trimmed.opens, noWord,
    show otherAnswer? [] = none from rfl]
  dsimp only
  rw [if_neg notSat, if_neg notList,
    dropModelWord_of_ne outlines.strip trimmed.opens noWord]

/-- What is left of an output has the lexemes that are left in its frame. -/
theorem renders_modelText {output : Text}
    (outlines : Outlines output outlined) :
    Session.Renders (modelText output)
      ((frame output).remaining outlined.reduceOption) := by
  have trimmed := trimmed_strip output
  have outlinesModel := outlines.strip
  have isSat := eq_sat_iff outlinesModel trimmed
  have isList := startsWithAnsweredList_iff outlinesModel trimmed.opens
  have beforeFirst :
      (frame output).beforeFirst = opensWithComment outlined := by
    rw [frame, outline_eq outlines]
  have afterFirst :
      (frame output).afterFirst = opensWithComment (afterToken outlined) := by
    rw [frame, outline_eq outlines]
  cases visible : opensWithComment outlined with
  | true =>
      rw [modelText_of_comment outlines visible, Frame.remaining, beforeFirst,
        visible, if_pos rfl]
      exact renders_ok outlinesModel
  | false =>
      unfold modelText Frame.remaining
      dsimp only
      rw [otherAnswer?_eq outlinesModel trimmed.opens, beforeFirst, afterFirst,
        visible, openingWord_eq visible, if_neg Bool.false_ne_true]
      cases otherAnswer? (leadingWord outlined.reduceOption) with
      | some answer => exact .error
      | none =>
          dsimp only
          simp only [Bool.and_eq_true, Bool.not_eq_true', decide_eq_true_eq,
            isSat, isList, eq_singleton_iff visible, exists_pair_iff visible]
          split
          · exact .error
          split
          · next pair =>
            obtain ⟨inner, rfl⟩ := (exists_pair_iff visible).mpr pair
            obtain ⟨next, outlinesNext, lexemes⟩ := exists_answeredList outlines
            show Session.Renders _
                (.ok ((frame output).unwrapped inner.reduceOption))
            rw [← lexemes]
            exact renders_ok outlinesNext
          · obtain ⟨next, outlinesNext, lexemes⟩ :=
              exists_dropModelWord outlinesModel trimmed.opens visible
            rw [← lexemes]
            exact renders_ok outlinesNext

end SolverOutput

end ModelAudit
