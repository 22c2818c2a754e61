import ModelAudit.Proofs.LexedAtoms
import ModelAudit.Text.Word

/-!
# Lexemes wherever a text ends

How long a lexeme is depends on what follows only as far as the lexeme goes. A
text that ends at the end of a lexeme, or later, begins with the same lexeme as
the whole text. This is what makes it possible to cut a text and to know the
lexemes of its parts.
-/

namespace ModelAudit.Lexer

/-! ## Measures of the start of a text -/

/-- A measure that looks no further than it measures: it gives the same where a
text ends at the measured part or later, and it finds nothing in a part of a
text that it does not find in the whole. -/
structure Stable (measure : Text → Option Nat) : Prop where
  bounded : ∀ {text count}, measure text = some count → count ≤ text.length
  kept : ∀ {text count cut}, measure text = some count → count ≤ cut →
    measure (text.take cut) = some count
  found : ∀ {text count cut}, measure (text.take cut) = some count →
      (measure text).isSome = true

theorem spanLength_le (accepts : CodePoint → Bool) (text : Text) :
    spanLength accepts text ≤ text.length :=
  (List.takeWhile_prefix accepts).length_le

theorem spanLength_take (accepts : CodePoint → Bool) (text : Text) (cut : Nat) :
    spanLength accepts (text.take cut) = min cut (spanLength accepts text) := by
  rw [spanLength, spanLength, ← List.take_takeWhile, List.length_take]

theorem dropWhile_eq_drop (accepts : CodePoint → Bool) (text : Text) :
    text.dropWhile accepts = text.drop (spanLength accepts text) :=
  calc text.dropWhile accepts
      = (text.takeWhile accepts ++ text.dropWhile accepts).drop
        (spanLength accepts text) :=
        (List.drop_left' rfl).symm
    _ = text.drop (spanLength accepts text) := by
      rw [List.takeWhile_append_dropWhile]

theorem not_accepts_of_mem_head? (accepts : CodePoint → Bool) (text : Text) :
    ∀ point ∈ (text.dropWhile accepts).head?, accepts point = false := by
  intro point member
  have first := List.head?_dropWhile_not accepts text
  rw [Option.mem_def.mp member] at first
  exact first

theorem someOf_eq_some_iff {accepts : CodePoint → Bool} {text : Text}
    {count : Nat} :
    someOf accepts text = some count ↔ spanLength accepts text = count ∧
    0 < count := by
  rw [someOf]
  cases spanLength accepts text with
  | zero =>
      constructor
      · rintro ⟨⟩
      · rintro ⟨rfl, positive⟩
        exact absurd positive (Nat.lt_irrefl 0)
  | succ length =>
      constructor
      · rintro ⟨⟩
        exact ⟨rfl, Nat.succ_pos _⟩
      · rintro ⟨rfl, _⟩
        rfl

theorem stable_none : Stable fun _ => none where
  bounded found := by cases found
  kept found := by cases found
  found found := by cases found

theorem stable_zero : Stable fun _ => some 0 where
  bounded found := by
    obtain rfl := Option.some.inj found
    exact Nat.zero_le _
  kept found _ := found
  found _ := rfl

/-- How far a class of code points goes is decided before the first code point
outside. -/
theorem stable_spanLength (accepts : CodePoint → Bool) :
    Stable fun text => some (spanLength accepts text) where
  bounded measured := by
    obtain rfl := Option.some.inj measured
    exact spanLength_le _ _
  kept measured inside := by
    obtain rfl := Option.some.inj measured
    rw [spanLength_take, Nat.min_eq_right inside]
  found _ := rfl

theorem stable_someOf (accepts : CodePoint → Bool) :
    Stable (someOf accepts) where
  bounded measured := by
    obtain ⟨rfl, _⟩ := someOf_eq_some_iff.mp measured
    exact spanLength_le _ _
  kept measured inside := by
    obtain ⟨rfl, positive⟩ := someOf_eq_some_iff.mp measured
    exact someOf_eq_some_iff.mpr
      ⟨by rw [spanLength_take, Nat.min_eq_right inside], positive⟩
  found {text count cut} measured := by
    obtain ⟨span, positive⟩ := someOf_eq_some_iff.mp measured
    rw [spanLength_take] at span
    have nonempty : 0 < spanLength accepts text := by omega
    exact Option.isSome_iff_exists.mpr
      ⟨_, someOf_eq_some_iff.mpr ⟨rfl, nonempty⟩⟩

theorem Stable.guard {measure : Text → Option Nat} (stable : Stable measure)
    (condition : Prop) [Decidable condition] : Stable fun text => if condition
      then measure text else none := by
  by_cases holds : condition
  · simpa only [holds, if_true] using stable
  · simpa only [holds, if_false] using stable_none

/-- A mark and what is measured after it. -/
def afterMark (mark : CodePoint) (measure : Text → Option Nat) :
    Text → Option Nat
  | [] => none
  | point :: rest => if point = mark then (measure rest).map (· + 1) else none

/-- The longest part of a class of code points and what is measured after it. -/
def afterSpan (accepts : CodePoint → Bool) (measure : Text → Option Nat)
    (text : Text) : Option Nat :=
  (measure (text.drop (spanLength accepts text))).map
    (spanLength accepts text + ·)

theorem afterMark_eq_some_iff {mark : CodePoint} {measure : Text → Option Nat}
    {text : Text} {count : Nat} :
    afterMark mark measure text = some count ↔
      ∃ rest length, text = mark :: rest ∧ measure rest = some length ∧
        count = length + 1 := by
  cases text with
  | nil => simp [afterMark]
  | cons point rest =>
      by_cases same : point = mark
      · simp [afterMark, same, eq_comm (b := count)]
      · simp [afterMark, same]

theorem stable_afterMark {measure : Text → Option Nat} (stable : Stable measure)
    (mark : CodePoint) : Stable (afterMark mark measure) where
  bounded measured := by
    obtain ⟨rest, length, rfl, later, rfl⟩ := afterMark_eq_some_iff.mp measured
    exact Nat.succ_le_succ (stable.bounded later)
  kept {text count cut} measured inside := by
    obtain ⟨rest, length, rfl, later, rfl⟩ := afterMark_eq_some_iff.mp measured
    obtain ⟨cut, rfl⟩ : ∃ earlier, cut = earlier + 1 := ⟨cut - 1, by omega⟩
    exact afterMark_eq_some_iff.mpr
      ⟨rest.take cut, length, List.take_succ_cons,
        stable.kept later (by omega), rfl⟩
  found {text count cut} measured := by
    obtain ⟨part, length, shape, later, rfl⟩ :=
      afterMark_eq_some_iff.mp measured
    cases text with
    | nil =>
        rw [List.take_nil] at shape
        cases shape
    | cons point rest =>
        cases cut with
        | zero => cases shape
        | succ cut =>
            obtain ⟨rfl, rfl⟩ := List.cons.inj shape
            obtain ⟨whole, found⟩ :=
              Option.isSome_iff_exists.mp (stable.found later)
            exact Option.isSome_iff_exists.mpr
              ⟨whole + 1, afterMark_eq_some_iff.mpr ⟨rest, whole, rfl,
                found, rfl⟩⟩

theorem stable_afterSpan {measure : Text → Option Nat} (stable : Stable measure)
    (atEnd : measure [] = none) (accepts : CodePoint → Bool) :
    Stable (afterSpan accepts measure) where
  bounded {text count} measured := by
    obtain ⟨length, later, rfl⟩ := Option.map_eq_some_iff.mp measured
    have bounded := stable.bounded later
    have inside := spanLength_le accepts text
    rw [List.length_drop] at bounded
    omega
  kept {text count cut} measured inside := by
    obtain ⟨length, later, rfl⟩ := Option.map_eq_some_iff.mp measured
    have span : spanLength accepts (text.take cut) =
        spanLength accepts text := by
      rw [spanLength_take]
      omega
    rw [afterSpan, span, List.drop_take, stable.kept later (by omega)]
    rfl
  found {text count cut} measured := by
    obtain ⟨length, later, rfl⟩ := Option.map_eq_some_iff.mp measured
    have shorter := spanLength_take accepts text cut
    rw [List.drop_take] at later
    have inside : spanLength accepts (text.take cut) < cut := by
      by_contra outside
      rw [Nat.sub_eq_zero_of_le (by omega), List.take_zero, atEnd] at later
      cases later
    have span : spanLength accepts (text.take cut) =
        spanLength accepts text := by omega
    rw [span] at later
    rw [afterSpan, Option.isSome_map]
    exact stable.found later

/-! ## Recognizers -/

theorem closingQuote_cons {point : CodePoint} {rest : Text}
    (other : point ≠ '"') :
    closingQuote (point :: rest) = (closingQuote rest).map (· + 1) := by
  cases rest with
  | nil =>
      rw [closingQuote, closingQuote, if_neg other]
      rfl
  | cons next rest => rw [closingQuote, if_neg other]

/-- A string literal is closed exactly if a quote comes. -/
theorem closingQuote_eq_none_iff {text : Text} :
    closingQuote text = none ↔ CodePoint.ofChar '"' ∉ text := by
  induction text using closingQuote.induct with
  | case1 => simp [closingQuote]
  | case2 => simp [closingQuote]
  | case3 point other => simp [closingQuote, other, Ne.symm other]
  | case4 rest _ => simp [closingQuote]
  | case5 next rest other => simp [closingQuote, other]
  | case6 point next rest other inductionHypothesis =>
      rw [closingQuote, if_neg other, Option.map_eq_none_iff,
        inductionHypothesis, List.mem_cons (b := point), not_or]
      exact ⟨fun absent => ⟨fun same => other same.symm, absent⟩, And.right⟩

/-- A literal that is closed ends with a quote. -/
theorem closingQuote_spec {text : Text} {count : Nat}
    (closed : closingQuote text = some count) :
    ∃ contents rest, text = contents ++ CodePoint.ofChar '"' :: rest ∧
      count = contents.length + 1 := by
  induction text using closingQuote.induct generalizing count with
  | case1 => cases closed
  | case2 =>
      obtain rfl := Option.some.inj closed
      exact ⟨[], [], rfl, rfl⟩
  | case3 point other =>
      rw [closingQuote, if_neg other] at closed
      cases closed
  | case4 rest inductionHypothesis =>
      rw [closingQuote, if_pos rfl, if_pos rfl] at closed
      cases later : closingQuote rest with
      | none =>
          rw [later] at closed
          obtain rfl := Option.some.inj closed
          exact ⟨[], _, rfl, rfl⟩
      | some length =>
          rw [later] at closed
          obtain rfl := Option.some.inj closed
          obtain ⟨contents, after, rfl, rfl⟩ := inductionHypothesis later
          exact ⟨_ :: _ :: contents, after, rfl, rfl⟩
  | case5 next rest other =>
      rw [closingQuote, if_pos rfl, if_neg other] at closed
      obtain rfl := Option.some.inj closed
      exact ⟨[], _, rfl, rfl⟩
  | case6 point next rest other inductionHypothesis =>
      rw [closingQuote, if_neg other] at closed
      obtain ⟨length, later, rfl⟩ := Option.map_eq_some_iff.mp closed
      obtain ⟨contents, after, split, rfl⟩ := inductionHypothesis later
      exact ⟨point :: contents, after, by rw [split]; rfl, rfl⟩

theorem closingQuote_pos {text : Text} {count : Nat}
    (closed : closingQuote text = some count) :
    0 < count := by
  obtain ⟨contents, _, _, rfl⟩ := closingQuote_spec closed
  exact Nat.succ_pos _

theorem closingQuote_take_eq_none {text : Text}
    (unclosed : closingQuote text = none) (cut : Nat) :
    closingQuote (text.take cut) = none := by
  rw [closingQuote_eq_none_iff] at unclosed ⊢
  exact fun member => unclosed (List.mem_of_mem_take member)

/-- A closing quote is found in every part of the text that reaches up to it. -/
theorem closingQuote_take {text : Text} {count cut : Nat}
    (closed : closingQuote text = some count) (inside : count ≤ cut) :
    closingQuote (text.take cut) = some count := by
  have positive := closingQuote_pos closed
  obtain ⟨cut, rfl⟩ : ∃ earlier, cut = earlier + 1 := ⟨cut - 1, by omega⟩
  induction text using closingQuote.induct generalizing count cut with
  | case1 => cases closed
  | case2 => rwa [List.take_succ_cons, List.take_nil]
  | case3 point other =>
      rw [closingQuote, if_neg other] at closed
      cases closed
  | case4 rest inductionHypothesis =>
      rw [closingQuote, if_pos rfl, if_pos rfl] at closed
      cases later : closingQuote rest with
      | some length =>
          rw [later] at closed
          obtain rfl : length + 2 = count := Option.some.inj closed
          have laterPositive := closingQuote_pos later
          obtain ⟨cut, rfl⟩ : ∃ earlier, cut = earlier + 2 :=
            ⟨cut - 2, by omega⟩
          have kept := inductionHypothesis later laterPositive cut (by omega)
          rw [List.take_succ_cons, List.take_succ_cons, closingQuote,
            if_pos rfl, if_pos rfl, kept]
          rfl
      | none =>
          rw [later] at closed
          obtain rfl := Option.some.inj closed
          cases cut with
          | zero => rfl
          | succ cut =>
              have absent := closingQuote_take_eq_none later cut
              rw [List.take_succ_cons, List.take_succ_cons, closingQuote,
                if_pos rfl, if_pos rfl, absent, Option.map_none]
  | case5 next rest other =>
      rw [closingQuote, if_pos rfl, if_neg other] at closed
      obtain rfl := Option.some.inj closed
      cases cut with
      | zero => rfl
      | succ cut =>
          rw [List.take_succ_cons, List.take_succ_cons, closingQuote,
            if_pos rfl, if_neg other]
  | case6 point next rest other inductionHypothesis =>
      rw [closingQuote, if_neg other] at closed
      obtain ⟨length, later, rfl⟩ := Option.map_eq_some_iff.mp closed
      have laterPositive := closingQuote_pos later
      obtain ⟨cut, rfl⟩ : ∃ earlier, cut = earlier + 1 := ⟨cut - 1, by omega⟩
      have kept := inductionHypothesis later laterPositive cut (by omega)
      rw [List.take_succ_cons] at kept
      rw [List.take_succ_cons, List.take_succ_cons, closingQuote,
        if_neg other, kept]
      rfl

theorem stable_closingQuote : Stable closingQuote where
  bounded closed := by
    obtain ⟨contents, rest, rfl, rfl⟩ := closingQuote_spec closed
    simp
  kept closed inside := closingQuote_take closed inside
  found {text count cut} closed := by
    cases whole : closingQuote text with
    | some length => rfl
    | none =>
        rw [closingQuote_take_eq_none whole cut] at closed
        cases closed

theorem quotedSymbol_eq (first : CodePoint) (rest : Text) :
    quotedSymbol first rest =
      if first = '|'
        then afterSpan isBarContent (afterMark '|' fun _ => some 0) rest
      else none := by
  rw [quotedSymbol]
  by_cases isBar : first = '|'
  · rw [if_pos isBar, afterSpan]
    cases rest.drop (spanLength isBarContent rest) with
    | nil => simp [afterMark]
    | cons point after =>
        by_cases closed : point = '|'
        · simp [afterMark, closed, isBar]
        · simp [afterMark, closed]
  · simp [isBar]

theorem based_eq (letter : CodePoint) (digit : CodePoint → Bool)
    (first : CodePoint) (rest : Text) :
    based letter digit first rest =
      if first = '#' then afterMark letter (someOf digit) rest else none := by
  cases rest with
  | nil => simp [based, afterMark]
  | cons second digits =>
    by_cases isSign : first = '#' <;> simp [based, afterMark, isSign]

theorem decimal_eq (first : CodePoint) (rest : Text) :
    decimal first rest =
      if first.isDigit then
        afterSpan CodePoint.isDigit
          (afterMark '.' (someOf CodePoint.isDigit)) rest
      else none := by
  by_cases digit : first.isDigit = true
  · rw [decimal, numeral, if_pos digit, if_pos digit, Option.bind_eq_bind,
      Option.bind_some, afterSpan]
    cases rest.drop (spanLength CodePoint.isDigit rest) with
    | nil => rfl
    | cons point part =>
        by_cases isPoint : point = '.'
        · simp [afterMark, isPoint, Function.comp_def, Nat.add_assoc,
            Nat.add_comm 1]
        · simp [afterMark, isPoint]
  · rw [decimal, numeral, if_neg digit, if_neg digit]
    rfl

/-- The recognizer of a class. -/
def recognizerOf : LexemeClass → Recognizer
  | .comment => comment
  | .blank => blank
  | .leftParenthesis => single '('
  | .rightParenthesis => single ')'
  | .string => string
  | .quotedSymbol => quotedSymbol
  | .hexadecimal => based 'x' CodePoint.isHexDigit
  | .binary => based 'b' isBit
  | .decimal => decimal
  | .numeral => numeral
  | .keyword => keyword
  | .symbol => symbol

theorem recognizerOf_of_mem_table :
    ∀ entry ∈ table, recognizerOf entry.1 = entry.2 := by
  simp only [table, List.forall_mem_cons]
  exact ⟨rfl, rfl, rfl, rfl, rfl, rfl, rfl, rfl, rfl, rfl, rfl, rfl,
    List.forall_mem_nil _⟩

theorem matched_of_recognize {first : CodePoint} {rest : Text}
    {kind : LexemeClass} {count : Nat}
    (recognized : recognize first rest = some (kind, count)) :
    recognizerOf kind first rest = some count := by
  obtain ⟨recognizer, member, matched⟩ := mem_table_of_recognize recognized
  exact recognizerOf_of_mem_table _ member ▸ matched

/-- No recognizer looks further than it measures. -/
theorem stable_recognizerOf (kind : LexemeClass) (first : CodePoint) :
    Stable (recognizerOf kind first) := by
  cases kind with
  | comment => exact (stable_spanLength _).guard _
  | blank => exact (stable_spanLength _).guard _
  | leftParenthesis => exact stable_zero.guard _
  | rightParenthesis => exact stable_zero.guard _
  | string => exact stable_closingQuote.guard _
  | quotedSymbol =>
      rw [recognizerOf, funext (quotedSymbol_eq first)]
      exact (stable_afterSpan (stable_afterMark stable_zero _) rfl _).guard _
  | hexadecimal =>
      rw [recognizerOf, funext (based_eq _ _ first)]
      exact (stable_afterMark (stable_someOf _) _).guard _
  | binary =>
      rw [recognizerOf, funext (based_eq _ _ first)]
      exact (stable_afterMark (stable_someOf _) _).guard _
  | decimal =>
      rw [recognizerOf, funext (decimal_eq first)]
      exact (stable_afterSpan
        (stable_afterMark (stable_someOf _) _) rfl _).guard _
  | numeral => exact (stable_spanLength _).guard _
  | keyword => exact (stable_someOf _).guard _
  | symbol => exact (stable_spanLength _).guard _

variable {first : CodePoint} {rest : Text} {kind : LexemeClass} {count : Nat}

theorem le_length_of_recognize
    (recognized : recognize first rest = some (kind, count)) :
    count ≤ rest.length :=
  (stable_recognizerOf kind first).bounded (matched_of_recognize recognized)

/-- A text that ends at the end of its first lexeme, or later, begins with this
lexeme. -/
theorem recognize_of_initial
    (recognized : recognize first rest = some (kind, count)) {part : Text}
    (initial : part <+: rest) (inside : count ≤ part.length) :
    recognize first part = some (kind, count) := by
  rw [List.prefix_iff_eq_take] at initial
  rw [recognize, List.findSome?_eq_some_iff] at recognized ⊢
  obtain ⟨earlier, ⟨other, recognizer⟩, later, split, matched, unmatched⟩ :=
    recognized
  have stable : ∀ entry ∈ table, Stable (entry.2 first) := fun entry member =>
    recognizerOf_of_mem_table entry member ▸ stable_recognizerOf entry.1 first
  refine ⟨earlier, (other, recognizer), later, split, ?_,
    fun entry member => ?_⟩
  · obtain ⟨length, counted, pair⟩ := Option.map_eq_some_iff.mp matched
    obtain ⟨rfl, rfl⟩ := Prod.mk.inj pair
    have here := stable (other, recognizer) (split ▸ by simp)
    exact Option.map_eq_some_iff.mpr
      ⟨length, initial ▸ here.kept counted inside, rfl⟩
  · have here := stable entry (split ▸ by simp [member])
    have absent := Option.map_eq_none_iff.mp (unmatched entry member)
    refine Option.map_eq_none_iff.mpr
      (Option.eq_none_iff_forall_ne_some.mpr fun length found => ?_)
    have there := here.found (initial ▸ found)
    rw [absent] at there
    cases there

/-! ## How lexemes begin -/

theorem isBlank_of_recognize
    (recognized : recognize first rest = some (.blank, count)) :
    first.isBlank = true ∧ count = spanLength CodePoint.isBlank rest := by
  have matched := matched_of_recognize recognized
  obtain ⟨isBlank, length⟩ := Option.ite_none_right_eq_some.mp matched
  exact ⟨isBlank, (Option.some.inj length).symm⟩

theorem ne_blank_of_recognize
    (recognized : recognize first rest = some (kind, count))
    (solid : first.isBlank = false) : kind ≠ .blank := by
  rintro rfl
  rw [(isBlank_of_recognize recognized).1] at solid
  cases solid

theorem recognize_of_isBlank (isBlank : first.isBlank = true) :
    recognize first rest =
      some (.blank, spanLength CodePoint.isBlank rest) := by
  have notMark : first ≠ ';' := by
    rintro rfl
    exact absurd isBlank (by decide)
  simp [recognize, table, comment, blank, isBlank, notMark]

theorem isBlank_eq_false_of_recognize
    (recognized : recognize first rest = some (kind, count))
    (other : kind ≠ .blank) : first.isBlank = false := by
  by_contra isBlank
  rw [Bool.not_eq_false] at isBlank
  rw [recognize_of_isBlank isBlank] at recognized
  cases recognized
  exact other rfl

theorem recognize_semicolon (rest : Text) :
    recognize ';' rest =
      some (.comment, spanLength
        (fun point : CodePoint => point ≠ '\n') rest) := by
  simp [recognize, table, comment]

theorem eq_semicolon_of_recognize
    (recognized : recognize first rest = some (.comment, count)) :
    first = ';' ∧
    count = spanLength (fun point : CodePoint => point ≠ '\n') rest := by
  have matched := matched_of_recognize recognized
  obtain ⟨same, length⟩ := Option.ite_none_right_eq_some.mp matched
  exact ⟨same, (Option.some.inj length).symm⟩

theorem recognize_opening (rest : Text) :
    recognize '(' rest = some (.leftParenthesis, 0) := by
  have notMark : CodePoint.ofChar '(' ≠ ';' := by decide
  have notBlank : (CodePoint.ofChar '(').isBlank = false := by decide
  simp [recognize, table, comment, blank, single, notMark, notBlank]

theorem eq_of_single (rest : Text) {mark : CodePoint}
    (matched : single mark first rest = some count) :
    first = mark ∧ count = 0 := by
  obtain ⟨same, zero⟩ := Option.ite_none_right_eq_some.mp matched
  exact ⟨same, (Option.some.inj zero).symm⟩

theorem eq_opening_of_recognize
    (recognized : recognize first rest = some (.leftParenthesis, count)) :
    first = '(' ∧ count = 0 :=
  eq_of_single rest (matched_of_recognize recognized)

theorem eq_closing_of_recognize
    (recognized : recognize first rest = some (.rightParenthesis, count)) :
    first = ')' ∧ count = 0 :=
  eq_of_single rest (matched_of_recognize recognized)

theorem ranges_disjoint : ∀ range ∈ blankRanges, ∀ other ∈ wordRanges,
    other.2 < range.1 ∨ range.2 < other.1 := by
  decide +kernel

theorem isWord_of_isBlank {point : CodePoint} (isBlank : point.isBlank = true) :
    point.isWord = false := by
  simp only [CodePoint.isBlank, CodePoint.isWord, CodePoint.inRanges,
    List.any_eq_true, List.any_eq_false, Bool.and_eq_true, decide_eq_true_eq]
      at isBlank ⊢
  obtain ⟨range, member, low, high⟩ := isBlank
  intro other otherMember inside
  have apart := ranges_disjoint range member other otherMember
  omega

theorem isSymbolStart_cases {point : CodePoint}
    (start : isSymbolStart point = true) :
    point.isLetter = true ∨ point ∈ symbolMarks := by
  simpa [isSymbolStart] using start

theorem isBlank_of_isSymbolStart {point : CodePoint}
    (start : isSymbolStart point = true) :
    point.isBlank = false := by
  rcases isSymbolStart_cases start with letter | mark
  · simp only [CodePoint.isLetter, Bool.or_eq_true, Bool.and_eq_true,
      decide_eq_true_eq] at letter
    simp only [CodePoint.isBlank, CodePoint.inRanges, blankRanges,
      List.any_cons, List.any_nil]
    simp
    omega
  · have always : ∀ mark ∈ symbolMarks, mark.isBlank = false := by decide
    exact always point mark

theorem isDigit_of_isSymbolStart {point : CodePoint}
    (start : isSymbolStart point = true) :
    point.isDigit = false := by
  rcases isSymbolStart_cases start with letter | mark
  · simp only [CodePoint.isLetter, Bool.or_eq_true, Bool.and_eq_true,
      decide_eq_true_eq] at letter
    simp [CodePoint.isDigit]
    omega
  · have always : ∀ mark ∈ symbolMarks, mark.isDigit = false := by decide
    exact always point mark

theorem ne_of_isSymbolStart {point mark : CodePoint}
    (start : isSymbolStart point = true) (other : isSymbolStart mark = false) :
    point ≠ mark := by
  rintro rfl
  rw [start] at other
  cases other

theorem recognize_of_isSymbolStart (rest : Text)
    (start : isSymbolStart first = true) :
    recognize first rest = some (.symbol, spanLength isSymbolPoint rest) := by
  have mark (point : CodePoint) (other : isSymbolStart point = false) :
      first ≠ point :=
    ne_of_isSymbolStart start other
  simp [recognize, table, comment, blank, single, string, quotedSymbol,
    based_eq, decimal_eq, numeral, keyword, symbol, start,
    isBlank_of_isSymbolStart start, isDigit_of_isSymbolStart start,
    mark ';' (by decide), mark '(' (by decide), mark ')' (by decide),
    mark '"' (by decide), mark '|' (by decide), mark '#' (by decide),
    mark ':' (by decide)]

theorem isSymbolStart_of_recognize
    (recognized : recognize first rest = some (.symbol, count)) :
    isSymbolStart first = true ∧ count = spanLength isSymbolPoint rest := by
  have matched := matched_of_recognize recognized
  obtain ⟨start, length⟩ := Option.ite_none_right_eq_some.mp matched
  exact ⟨start, (Option.some.inj length).symm⟩

theorem isSymbolStart_eq_false_of_recognize
    (recognized : recognize first rest = some (kind, count))
    (other : kind ≠ .symbol) :
    isSymbolStart first = false := by
  by_contra start
  rw [Bool.not_eq_false] at start
  rw [recognize_of_isSymbolStart rest start] at recognized
  cases recognized
  exact other rfl

theorem isWord_of_isDigit {point : CodePoint} (digit : point.isDigit = true) :
    point.isWord = true :=
  List.any_eq_true.mpr ⟨(0x30, 0x39), List.mem_cons_self, digit⟩

/-- A lexeme that could not go on a symbol ends a word as well. -/
theorem isWord_of_recognize
    (recognized : recognize first rest = some (kind, count))
    (outside : isSymbolPoint first = false) : first.isWord = false := by
  have matched := matched_of_recognize recognized
  have guarded {condition : Prop} [Decidable condition] {measured : Option Nat}
      (found : (if condition then measured else none) = some count) :
        condition :=
    (Option.ite_none_right_eq_some.mp found).1
  rw [isSymbolPoint, Bool.or_eq_false_iff] at outside
  cases kind with
  | blank => exact isWord_of_isBlank (guarded matched)
  | comment | leftParenthesis | rightParenthesis | string | keyword =>
      rw [show first = _ from guarded matched]
      decide +kernel
  | quotedSymbol =>
      rw [recognizerOf, quotedSymbol_eq] at matched
      rw [show first = _ from guarded matched]
      decide +kernel
  | hexadecimal | binary =>
      rw [recognizerOf, based_eq] at matched
      rw [show first = _ from guarded matched]
      decide +kernel
  | decimal =>
      rw [recognizerOf, decimal_eq] at matched
      exact absurd (guarded matched) (by simp [outside])
  | numeral => exact absurd (guarded matched) (by simp [outside])
  | symbol => exact absurd (guarded matched) (by simp [outside])

/-! ## How lexemes end -/

/-- The text ends with a code point of a class. -/
def EndsIn (accepts : CodePoint → Bool) (text : Text) : Prop :=
  ∃ last, text.getLast? = some last ∧ accepts last = true

theorem endsIn_of_drop {accepts : CodePoint → Bool} {written : Text}
    (skipped : Nat) (nonempty : written.drop skipped ≠ [])
    (each : ∀ point ∈ written.drop skipped, accepts point = true) :
    EndsIn accepts written := by
  refine ⟨(written.drop skipped).getLast nonempty, ?_,
    each _ (List.getLast_mem nonempty)⟩
  rw [← List.getLast?_eq_some_getLast, List.getLast?_drop, if_neg]
  exact fun short => nonempty (List.drop_of_length_le short)

theorem isSymbolPoint_of_isHexDigit {point : CodePoint}
    (isHexDigit : point.isHexDigit = true) :
    isSymbolPoint point = true := by
  simp only [CodePoint.isHexDigit, CodePoint.hexValue?, Bool.and_eq_true,
    decide_eq_true_eq]
    at isHexDigit
  simp only [isSymbolPoint, isSymbolStart, CodePoint.isLetter, Bool.or_eq_true,
    Bool.and_eq_true, decide_eq_true_eq]
  split at isHexDigit
  · next digit => exact .inr digit
  split at isHexDigit
  · next capital => exact .inl (.inl (.inl (by omega)))
  split at isHexDigit
  · next letter => exact .inl (.inl (.inr (by omega)))
  · cases isHexDigit

theorem isSymbolPoint_of_isBit {point : CodePoint}
    (isBit : isBit point = true) :
    isSymbolPoint point = true := by
  simp only [Lexer.isBit, Bool.or_eq_true, decide_eq_true_eq] at isBit
  rcases isBit with rfl | rfl <;> decide

/-- Code points at the end of lexemes other than parentheses. -/
def isFinal (point : CodePoint) : Bool :=
  isSymbolPoint point || point = '"' || point = '|'

theorem isFinal_of_isSymbolPoint {point : CodePoint}
    (isPoint : isSymbolPoint point = true) :
    isFinal point = true := by
  rw [isFinal, isPoint]
  rfl

theorem isFinal_of_isDigit {point : CodePoint} (digit : point.isDigit = true) :
    isFinal point = true :=
  isFinal_of_isSymbolPoint (by rw [isSymbolPoint, digit, Bool.or_true])

theorem isBlank_of_isFinal {point : CodePoint} (final : isFinal point = true) :
    point.isBlank = false := by
  simp only [isFinal, isSymbolPoint, Bool.or_eq_true, decide_eq_true_eq]
    at final
  rcases final with ((start | digit) | rfl) | rfl
  · exact isBlank_of_isSymbolStart start
  · simp only [CodePoint.isDigit, Bool.and_eq_true, decide_eq_true_eq] at digit
    simp only [CodePoint.isBlank, CodePoint.inRanges, blankRanges,
      List.any_cons, List.any_nil]
    simp
    omega
  · decide
  · decide

/-- Tokens other than parentheses end with code points that may end them, so
never with white space. -/
theorem endsIn_of_recognize
    (recognized : recognize first rest = some (kind, count))
    (token : kind ≠ .blank ∧ kind ≠ .comment)
    (inner : kind ≠ .leftParenthesis ∧ kind ≠ .rightParenthesis) :
    EndsIn isFinal (first :: rest.take count) := by
  have matched := matched_of_recognize recognized
  cases kind with
  | blank => exact absurd rfl token.1
  | comment => exact absurd rfl token.2
  | leftParenthesis => exact absurd rfl inner.1
  | rightParenthesis => exact absurd rfl inner.2
  | string =>
      obtain ⟨_, closed⟩ := Option.ite_none_right_eq_some.mp matched
      obtain ⟨contents, after, rfl, rfl⟩ := closingQuote_spec closed
      refine ⟨'"', ?_, by decide⟩
      rw [List.take_length_add_append, List.take_succ_cons, List.take_zero,
        ← List.cons_append]
      exact List.getLast?_concat
  | quotedSymbol =>
      rw [recognizerOf, quotedSymbol_eq] at matched
      obtain ⟨_, spanned⟩ := Option.ite_none_right_eq_some.mp matched
      obtain ⟨length, closed, rfl⟩ := Option.map_eq_some_iff.mp spanned
      obtain ⟨after, _, shape, zero, rfl⟩ := afterMark_eq_some_iff.mp closed
      obtain rfl := Option.some.inj zero
      refine ⟨'|', ?_, by decide⟩
      rw [List.take_add, shape, List.take_succ_cons, List.take_zero,
        ← List.cons_append]
      exact List.getLast?_concat
  | hexadecimal =>
      obtain ⟨nonempty, digits⟩ := digits_of_based matched
      exact endsIn_of_drop 2 nonempty fun point member =>
        isFinal_of_isSymbolPoint
          (isSymbolPoint_of_isHexDigit (digits point member))
  | binary =>
      obtain ⟨nonempty, digits⟩ := digits_of_based matched
      exact endsIn_of_drop 2 nonempty fun point member =>
        isFinal_of_isSymbolPoint (isSymbolPoint_of_isBit (digits point member))
  | decimal =>
      refine endsIn_of_drop 0 (List.cons_ne_nil _ _) fun point member => ?_
      rcases points_of_decimal matched point member with digit | rfl
      · exact isFinal_of_isDigit digit
      · decide
  | numeral =>
      obtain ⟨firstDigit, digits⟩ := isDigit_of_numeral matched
      refine endsIn_of_drop 0 (List.cons_ne_nil _ _)
        (List.forall_mem_cons.mpr ⟨?_, ?_⟩)
      · exact isFinal_of_isDigit firstDigit
      · exact fun point member => isFinal_of_isDigit (digits point member)
  | keyword =>
      obtain ⟨_, some⟩ := Option.ite_none_right_eq_some.mp matched
      obtain ⟨nonempty, points⟩ := take_of_someOf some
      exact endsIn_of_drop 1 nonempty fun point member =>
        isFinal_of_isSymbolPoint (points point member)
  | symbol =>
      obtain ⟨start, rfl⟩ := isSymbolStart_of_recognize recognized
      rw [take_spanLength]
      refine endsIn_of_drop 0 (List.cons_ne_nil _ _)
        (List.forall_mem_cons.mpr ⟨?_, ?_⟩)
      · exact isFinal_of_isSymbolPoint
          (by rw [isSymbolPoint, start, Bool.true_or])
      · exact fun point member =>
          isFinal_of_isSymbolPoint (List.mem_takeWhile_imp member)

theorem exists_getLast?_of_recognize
    (recognized : recognize first rest = some (kind, count))
    (token : kind ≠ .blank ∧ kind ≠ .comment) :
    ∃ last, (first :: rest.take count).getLast? = some last ∧
      last.isBlank = false := by
  by_cases inner : kind ≠ .leftParenthesis ∧ kind ≠ .rightParenthesis
  · obtain ⟨last, ends, final⟩ := endsIn_of_recognize recognized token inner
    exact ⟨last, ends, isBlank_of_isFinal final⟩
  · rcases not_and_or.mp inner with opening | closing
    · obtain rfl := not_not.mp opening
      obtain ⟨rfl, rfl⟩ := eq_opening_of_recognize recognized
      exact ⟨'(', rfl, by decide⟩
    · obtain rfl := not_not.mp closing
      obtain ⟨rfl, rfl⟩ := eq_closing_of_recognize recognized
      exact ⟨')', rfl, by decide⟩

end ModelAudit.Lexer
