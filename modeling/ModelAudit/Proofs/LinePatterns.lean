import ModelAudit.Proofs.Outlines
import ModelAudit.Text.Lines
import ModelAudit.Text.Pattern

/-!
# Patterns and lines

Where a pattern matches is said without the matcher, by the parts of a text that
its items fit. From this the pattern for a message that stands alone is found in
a text exactly if a single line of the text is the message up to white space,
although the white space of a match may run over many lines.
-/

namespace ModelAudit

/-! ## Starts and ends of lines -/

namespace Text

/-- What follows the text is the start of a line. -/
def StartsLine (before : Text) : Prop :=
  ∀ point ∈ before.getLast?, point = CodePoint.ofChar '\n'

/-- What stands before the text is the end of a line. -/
def EndsLine (after : Text) : Prop :=
  ∀ point ∈ after.head?, point = CodePoint.ofChar '\n'

variable {text before after front back line message : Text}

theorem startsLine_nil : StartsLine [] := by
  rintro _ ⟨⟩

theorem endsLine_nil : EndsLine [] := by
  rintro _ ⟨⟩

theorem StartsLine.append (starts : StartsLine before)
    (later : StartsLine front) :
    StartsLine (before ++ front) := by
  intro point ends
  rw [List.getLast?_append] at ends
  rcases Option.or_eq_some_iff.mp ends with here | ⟨_, earlier⟩
  · exact later point here
  · exact starts point earlier

theorem EndsLine.append (ends : EndsLine after) (earlier : EndsLine back) :
    EndsLine (back ++ after) := by
  intro point starts
  rw [List.head?_append] at starts
  rcases Option.or_eq_some_iff.mp starts with here | ⟨_, later⟩
  · exact earlier point here
  · exact ends point later

theorem startsLine_cases (starts : StartsLine before) :
    before = [] ∨ ∃ earlier, before = earlier ++ [CodePoint.ofChar '\n'] := by
  rcases List.eq_nil_or_concat before with rfl | ⟨earlier, last, rfl⟩
  · exact .inl rfl
  · rw [List.concat_eq_append] at starts ⊢
    obtain rfl := starts last List.getLast?_concat
    exact .inr ⟨earlier, rfl⟩

theorem endsLine_cases (ends : EndsLine after) :
    after = [] ∨ ∃ later, after = CodePoint.ofChar '\n' :: later := by
  cases after with
  | nil => exact .inl rfl
  | cons first later =>
      obtain rfl := ends first rfl
      exact .inr ⟨later, rfl⟩

/-- A text goes up to its first line feed and on from there. -/
theorem exists_firstLine (text : Text) :
    ∃ line later, text = line ++ later ∧ CodePoint.ofChar '\n' ∉ line ∧
      EndsLine later := by
  by_cases member : CodePoint.ofChar '\n' ∈ text
  · obtain ⟨line, later, rfl, free⟩ := List.eq_append_cons_of_mem member
    exact ⟨line, _, rfl, free, by rintro _ ⟨⟩; rfl⟩
  · exact ⟨text, [], (List.append_nil text).symm, member, endsLine_nil⟩

/-- A text goes up to its last line feed and on from there. -/
theorem exists_lastLine (text : Text) :
    ∃ earlier line, text = earlier ++ line ∧ CodePoint.ofChar '\n' ∉ line ∧
      StartsLine earlier := by
  obtain ⟨line, later, shape, free, ends⟩ := exists_firstLine text.reverse
  refine ⟨later.reverse, line.reverse, ?_, ?_, ?_⟩
  · rw [← List.reverse_append, ← shape, List.reverse_reverse]
  · rwa [List.mem_reverse]
  · intro point last
    rw [List.getLast?_reverse] at last
    exact ends point last

/-! ## Lines -/

theorem lines_of_notMem (free : CodePoint.ofChar '\n' ∉ line) :
    line.lines = [line] := by
  induction line with
  | nil => rfl
  | cons point line inductionHypothesis =>
      obtain ⟨other, later⟩ := not_or.mp (mt List.mem_cons.mpr free)
      rw [lines, splitAll, if_neg (Ne.symm other), ← lines,
        inductionHypothesis later]

theorem lines_ne_nil (text : Text) : text.lines ≠ [] := by
  cases text with
  | nil => exact List.cons_ne_nil _ _
  | cons point rest =>
      rw [lines, splitAll]
      split
      · exact List.cons_ne_nil _ _
      · split <;> exact List.cons_ne_nil _ _

/-- A line feed between two texts keeps their lines apart. -/
theorem lines_join (first second : Text) :
    (first ++ CodePoint.ofChar '\n' :: second).lines =
      first.lines ++ second.lines := by
  induction first with
  | nil => rw [List.nil_append, lines, splitAll, if_pos rfl]; rfl
  | cons point first inductionHypothesis =>
      rw [lines] at inductionHypothesis
      rw [List.cons_append, lines, lines, splitAll, splitAll,
        inductionHypothesis]
      by_cases lineFeed : point = CodePoint.ofChar '\n'
      · rw [if_pos lineFeed, if_pos lineFeed]
        rfl
      · rw [if_neg lineFeed, if_neg lineFeed]
        obtain ⟨part, parts, shape⟩ :=
          List.exists_cons_of_ne_nil (lines_ne_nil first)
        rw [shape]
        rw [lines] at shape
        rw [shape]
        rfl

theorem mem_lines_between (free : CodePoint.ofChar '\n' ∉ line)
    (starts : StartsLine before) (ends : EndsLine after) :
    line ∈ (before ++ line ++ after).lines := by
  have here : line ∈ (line ++ after).lines := by
    rcases endsLine_cases ends with rfl | ⟨later, rfl⟩
    · rw [List.append_nil, lines_of_notMem free]
      exact List.mem_singleton_self line
    · rw [lines_join, lines_of_notMem free]
      exact List.mem_cons_self
  rw [List.append_assoc]
  rcases startsLine_cases starts with rfl | ⟨earlier, rfl⟩
  · exact here
  · rw [List.append_assoc, List.singleton_append, lines_join]
    exact List.mem_append_right _ here

/-- A line stands in its text between a start and an end of a line. -/
theorem exists_of_mem_lines (text : Text) {line : Text}
    (member : line ∈ text.lines) :
    CodePoint.ofChar '\n' ∉ line ∧
      ∃ before after, text = before ++ line ++ after ∧ StartsLine before ∧
        EndsLine after := by
  obtain ⟨first, later, whole, free, ends⟩ := exists_firstLine text
  rcases endsLine_cases ends with rfl | ⟨rest, rfl⟩
  · rw [whole, List.append_nil, lines_of_notMem free] at member
    obtain rfl := List.mem_singleton.mp member
    exact ⟨free, [], [], whole, startsLine_nil, endsLine_nil⟩
  · rw [whole, lines_join, lines_of_notMem free] at member
    rcases List.mem_cons.mp member with rfl | inside
    · exact ⟨free, [], _, whole, startsLine_nil, ends⟩
    · obtain ⟨lineFree, before, after, rfl, starts, lineEnds⟩ :=
        exists_of_mem_lines rest inside
      refine ⟨lineFree, (first ++ [CodePoint.ofChar '\n']) ++ before, after, ?_,
        ?_, lineEnds⟩
      · rw [whole]
        simp only [List.append_assoc, List.cons_append, List.nil_append]
      · exact StartsLine.append
          (fun point last => by simpa using last.symm) starts
termination_by text.length
decreasing_by
  rw [whole, List.length_append, List.length_cons]
  omega

/-- The lines of a text are its parts without line feeds from the start of a
line to the end of a line. -/
theorem mem_lines_iff :
    line ∈ text.lines ↔ CodePoint.ofChar '\n' ∉ line ∧
      ∃ before after, text = before ++ line ++ after ∧ StartsLine before ∧
        EndsLine after := by
  constructor
  · exact exists_of_mem_lines text
  · rintro ⟨free, before, after, rfl, starts, ends⟩
    exact mem_lines_between free starts ends

/-! ## White space around a message -/

/-- A text is what stripping leaves of it, with white space in front and
behind. -/
theorem exists_of_strip (text : Text) :
    ∃ front back, text = front ++ text.strip ++ back ∧
      (∀ point ∈ front, point.isBlank = true) ∧
      ∀ point ∈ back, point.isBlank = true := by
  refine ⟨text.takeWhile CodePoint.isBlank,
    (text.stripLeft.reverse.takeWhile CodePoint.isBlank).reverse, ?_, ?_, ?_⟩
  · rw [List.append_assoc, strip, stripRight, ← List.reverse_append,
      List.takeWhile_append_dropWhile, List.reverse_reverse, stripLeft,
      List.takeWhile_append_dropWhile]
  · exact fun point member => List.mem_takeWhile_imp member
  · exact fun point member =>
      List.mem_takeWhile_imp (List.mem_reverse.mp member)

theorem strip_between (trimmed : Lexer.Trimmed message)
    (nonempty : message ≠ [])
    (frontBlank : ∀ point ∈ front, point.isBlank = true)
    (backBlank : ∀ point ∈ back, point.isBlank = true) :
    (front ++ message ++ back).strip = message := by
  obtain ⟨first, rest, rfl⟩ := List.exists_cons_of_ne_nil nonempty
  have solid := trimmed.opens first rfl
  have left : stripLeft (front ++ (first :: rest) ++ back) =
      (first :: rest) ++ back := by
    rw [stripLeft, List.append_assoc, List.dropWhile_append_of_pos frontBlank,
      List.cons_append, List.dropWhile_cons_of_neg (by simp [solid])]
  have ends := List.getLast?_eq_some_getLast (List.cons_ne_nil first rest)
  rw [strip, left, Lexer.stripRight_append,
    if_pos (Lexer.stripRight_of_forall backBlank)]
  exact Lexer.stripRight_of_getLast? ends (trimmed.closes _ ends)

end Text

open Text

/-! ## What patterns fit -/

/-- The item fits a part of a text between what stands before and after it. -/
def PatternItem.Fits (before part after : Text) : PatternItem → Prop
  | lineStart => part = [] ∧ StartsLine before
  | lineEnd => part = [] ∧ EndsLine after
  | blanks => ∀ point ∈ part, point.isBlank = true
  | word written => part = written

/-- The items fit one part after the other. -/
def Pattern.Fits (before part after : Text) : Pattern → Prop
  | [] => part = []
  | item :: items =>
    ∃ front back, part = front ++ back ∧
      item.Fits before front (back ++ after) ∧
      Pattern.Fits (before ++ front) back after items

section Matchers

variable {next : Matcher} {holds : Text → Text → Prop}

/-- Trying all lengths of white space finds a match if some length has one. -/
theorem afterBlanks_iff
    (nextIff : ∀ before text, next before.getLast? text = true ↔
      holds before text)
    (before text : Text) :
    next.afterBlanks before.getLast? text = true ↔
      ∃ front rest, text = front ++ rest ∧
        (∀ point ∈ front, point.isBlank = true) ∧
        holds (before ++ front) rest := by
  induction text generalizing before with
  | nil =>
      rw [Matcher.afterBlanks, nextIff]
      constructor
      · exact fun here => ⟨[], [], rfl, by simp, by rwa [List.append_nil]⟩
      · rintro ⟨front, rest, empty, _, here⟩
        obtain ⟨rfl, rfl⟩ := List.append_eq_nil_iff.mp empty.symm
        rwa [List.append_nil] at here
  | cons point rest inductionHypothesis =>
      have later := inductionHypothesis (before ++ [point])
      rw [List.getLast?_concat] at later
      rw [Matcher.afterBlanks, Bool.or_eq_true, Bool.and_eq_true,
        nextIff, later]
      constructor
      · rintro (here | ⟨isBlank, front, back, rfl, blank, there⟩)
        · exact ⟨[], _, rfl, by simp, by rwa [List.append_nil]⟩
        · rw [List.append_assoc, List.singleton_append] at there
          exact ⟨point :: front, back, rfl,
            List.forall_mem_cons.mpr ⟨isBlank, blank⟩, there⟩
      · rintro ⟨front, back, shape, blank, there⟩
        cases front with
        | nil =>
            obtain rfl : point :: rest = back := shape
            rw [List.append_nil] at there
            exact .inl there
        | cons first front =>
            obtain ⟨rfl, rfl⟩ := List.cons.inj shape
            obtain ⟨isBlank, blank⟩ := List.forall_mem_cons.mp blank
            refine .inr ⟨isBlank, front, back, rfl, blank, ?_⟩
            rwa [List.append_assoc, List.singleton_append]

theorem all_eq_lineFeed_iff (point : Option CodePoint) :
    point.all (fun point : CodePoint => point = '\n') = true ↔
      ∀ here ∈ point, here = CodePoint.ofChar '\n' := by
  cases point <;> simp

/-- An item and what comes after it match if a part of the text fits the item
and the rest the others. -/
theorem before_iff
    (nextIff : ∀ before text, next before.getLast? text = true ↔
      holds before text)
    (item : PatternItem) (before text : Text) :
    item.before next before.getLast? text = true ↔
      ∃ front rest, text = front ++ rest ∧ item.Fits before front rest ∧
        holds (before ++ front) rest := by
  cases item with
  | lineStart =>
      rw [PatternItem.before, Bool.and_eq_true, all_eq_lineFeed_iff, nextIff]
      constructor
      · exact fun ⟨starts, here⟩ =>
          ⟨[], text, rfl, ⟨rfl, starts⟩, by rwa [List.append_nil]⟩
      · rintro ⟨front, rest, rfl, ⟨rfl, starts⟩, here⟩
        rw [List.append_nil] at here
        exact ⟨starts, here⟩
  | lineEnd =>
      rw [PatternItem.before, Bool.and_eq_true, all_eq_lineFeed_iff, nextIff]
      constructor
      · exact fun ⟨ends, here⟩ =>
          ⟨[], text, rfl, ⟨rfl, ends⟩, by rwa [List.append_nil]⟩
      · rintro ⟨front, rest, rfl, ⟨rfl, ends⟩, here⟩
        rw [List.append_nil] at here
        exact ⟨ends, here⟩
  | blanks => exact afterBlanks_iff nextIff before text
  | word written =>
      rw [PatternItem.before, Bool.and_eq_true, List.isPrefixOf_iff_prefix,
        ← List.getLast?_append, nextIff]
      constructor
      · rintro ⟨⟨rest, rfl⟩, here⟩
        rw [List.drop_left] at here
        exact ⟨written, rest, rfl, rfl, here⟩
      · rintro ⟨_, rest, rfl, rfl, here⟩
        rw [List.drop_left]
        exact ⟨List.prefix_append _ rest, here⟩

end Matchers

namespace Pattern

/-- A pattern matches at a place exactly if some text there fits it. -/
theorem startsAt_iff (pattern : Pattern) (before text : Text) :
    pattern.startsAt before.getLast? text = true ↔
      ∃ part after, text = part ++ after ∧ pattern.Fits before part after := by
  induction pattern generalizing before text with
  | nil =>
      constructor
      · exact fun _ => ⟨[], text, rfl, rfl⟩
      · exact fun _ => rfl
  | cons item items inductionHypothesis =>
      rw [startsAt, before_iff inductionHypothesis]
      constructor
      · rintro ⟨front, _, rfl, fits, back, after, rfl, later⟩
        exact ⟨front ++ back, after, (List.append_assoc _ _ _).symm, front,
          back, rfl, fits, later⟩
      · rintro ⟨_, after, rfl, front, back, rfl, fits, later⟩
        exact ⟨front, back ++ after, List.append_assoc _ _ _, fits, back, after,
          rfl, later⟩

/-- A pattern is found exactly if some part of the text fits it. -/
theorem occursFrom_iff (pattern : Pattern) (before text : Text) :
    pattern.occursFrom before.getLast? text = true ↔
      ∃ skipped part after, text = skipped ++ part ++ after ∧
        pattern.Fits (before ++ skipped) part after := by
  induction text generalizing before with
  | nil =>
      rw [occursFrom, startsAt_iff]
      constructor
      · rintro ⟨part, after, shape, fits⟩
        exact ⟨[], part, after, shape, by rwa [List.append_nil]⟩
      · rintro ⟨skipped, part, after, shape, fits⟩
        obtain ⟨nothing, rfl⟩ := List.append_eq_nil_iff.mp shape.symm
        obtain ⟨rfl, rfl⟩ := List.append_eq_nil_iff.mp nothing
        rw [List.append_nil] at fits
        exact ⟨[], [], rfl, fits⟩
  | cons point rest inductionHypothesis =>
      have later := inductionHypothesis (before ++ [point])
      rw [List.getLast?_concat] at later
      rw [occursFrom, Bool.or_eq_true, startsAt_iff, later]
      constructor
      · rintro (⟨part, after, shape, fits⟩ | ⟨skipped, part, after, rfl, fits⟩)
        · exact ⟨[], part, after, shape, by rwa [List.append_nil]⟩
        · rw [List.append_assoc, List.singleton_append] at fits
          exact ⟨point :: skipped, part, after, rfl, fits⟩
      · rintro ⟨skipped, part, after, shape, fits⟩
        cases skipped with
        | nil =>
            rw [List.append_nil] at fits
            exact .inl ⟨part, after, shape, fits⟩
        | cons first skipped =>
            obtain ⟨rfl, rfl⟩ := List.cons.inj shape
            refine .inr ⟨skipped, part, after, rfl, ?_⟩
            rwa [List.append_assoc, List.singleton_append]

/-- A pattern is found in a text exactly if it fits a part of the text. -/
theorem occursIn_iff (pattern : Pattern) (text : Text) :
    pattern.occursIn text = true ↔
      ∃ before part after, text = before ++ part ++ after ∧
        pattern.Fits before part after :=
  occursFrom_iff pattern [] text

variable {message text : Text}

theorem occursIn_word_iff : occursIn [.word message] text = true ↔
    message <:+: text := by
  rw [occursIn_iff]
  constructor
  · rintro ⟨before, _, after, rfl, _, _, rfl, rfl, rfl⟩
    exact ⟨before, after, by rw [List.append_nil]⟩
  · rintro ⟨before, after, rfl⟩
    exact ⟨before, message, after, rfl, message, [],
      (List.append_nil message).symm, rfl, rfl⟩

/-- The pattern of a message fits lines with the message and nothing else but
white space. -/
theorem fits_alone_iff {before part after : Text} :
    (alone message).Fits before part after ↔
      ∃ front back, part = front ++ message ++ back ∧
        (∀ point ∈ front, point.isBlank = true) ∧
        (∀ point ∈ back, point.isBlank = true) ∧ StartsLine before ∧
        EndsLine after := by
  simp only [alone, Fits, PatternItem.Fits]
  constructor
  · rintro ⟨_, _, rfl, ⟨rfl, starts⟩, front, _, rfl, frontBlank, _, _, rfl, rfl,
      back, _, rfl, backBlank, _, _, rfl, ⟨rfl, ends⟩, rfl⟩
    exact ⟨front, back, by simp, frontBlank, backBlank, starts,
      by simpa using ends⟩
  · rintro ⟨front, back, rfl, frontBlank, backBlank, starts, ends⟩
    exact ⟨[], _, rfl, ⟨rfl, starts⟩, front, message ++ back,
      List.append_assoc _ _ _, frontBlank, message, back, rfl, rfl, back, [],
      (List.append_nil back).symm, backBlank, [], [], rfl, ⟨rfl, ends⟩, rfl⟩

/-- A message is found alone in a text, with white space that may hold line
feeds around it, exactly if it is some line of the text up to white space. -/
theorem occursIn_alone_iff (trimmed : Lexer.Trimmed message)
    (nonempty : message ≠ []) (free : CodePoint.ofChar '\n' ∉ message) :
    (alone message).occursIn text = true ↔
      ∃ line ∈ text.lines, line.strip = message := by
  rw [occursIn_iff]
  constructor
  · rintro ⟨before, _, after, rfl, fits⟩
    obtain ⟨front, back, rfl, frontBlank, backBlank, starts, ends⟩ :=
      fits_alone_iff.mp fits
    -- The line of the message begins after the last line feed before it.
    obtain ⟨earlier, indent, rfl, indentFree, earlierStarts⟩ :=
      exists_lastLine front
    obtain ⟨trail, later, rfl, trailFree, laterEnds⟩ := exists_firstLine back
    refine ⟨indent ++ message ++ trail,
      mem_lines_iff.mpr ⟨?_, before ++ earlier, later ++ after,
      by simp only [List.append_assoc], starts.append earlierStarts,
      ends.append laterEnds⟩, ?_⟩
    · simp only [List.mem_append, not_or]
      exact ⟨⟨indentFree, free⟩, trailFree⟩
    · exact strip_between trimmed nonempty
        (fun point member => frontBlank point (List.mem_append_right _ member))
        (fun point member => backBlank point (List.mem_append_left _ member))
  · rintro ⟨line, member, rfl⟩
    obtain ⟨_, before, after, rfl, starts, ends⟩ := mem_lines_iff.mp member
    obtain ⟨front, back, shape, frontBlank, backBlank⟩ := exists_of_strip line
    exact ⟨before, line, after, rfl,
      fits_alone_iff.mpr ⟨front, back, shape, frontBlank, backBlank,
        starts, ends⟩⟩

end Pattern

end ModelAudit
