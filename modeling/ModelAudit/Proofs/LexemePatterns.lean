import ModelAudit.Proofs.StableLexemes

/-!
# The patterns of lexemes

Each class of lexemes has a pattern, which says what its lexemes look like. The
lexeme at the start of a text is the longest part there that fits the pattern of
its class, and its class is the first one whose pattern fits any part there. No
lexeme is recognized exactly if no pattern fits.
-/

namespace ModelAudit.Lexer

/-! ## Patterns -/

/-- What the lexemes of a class look like. -/
def LexemeClass.Matches : LexemeClass → Text → Prop
  | comment, written =>
    ∃ rest : Text, written = ";" ++ rest ∧ ∀ point ∈ rest, point ≠ '\n'
  | blank, written => written ≠ [] ∧ ∀ point ∈ written, point.isBlank = true
  | leftParenthesis, written => written = "("
  | rightParenthesis, written => written = ")"
  | string, written =>
    ∃ contents, written = "\"" ++ Atom.doubleQuotes contents ++ "\""
  | quotedSymbol, written =>
    ∃ name : Text, written = "|" ++ name ++ "|" ∧ ∀ point ∈ name, point ≠ '|' ∧
      point ≠ '\\'
  | hexadecimal, written =>
    ∃ digits, written = "#x" ++ digits ∧ digits ≠ [] ∧
      ∀ point ∈ digits, point.isHexDigit = true
  | binary, written =>
    ∃ digits : Text, written = "#b" ++ digits ∧ digits ≠ [] ∧
      ∀ point ∈ digits, point = '0' ∨ point = '1'
  | decimal, written =>
    ∃ whole part : Text, written = whole ++ "." ++ part ∧ whole ≠ [] ∧
      part ≠ [] ∧
      (∀ point ∈ whole, point.isDigit = true) ∧
      ∀ point ∈ part, point.isDigit = true
  | numeral, written => written ≠ [] ∧ ∀ point ∈ written, point.isDigit = true
  | keyword, written =>
    ∃ name, written = ":" ++ name ∧ name ≠ [] ∧
      ∀ point ∈ name, isSymbolPoint point = true
  | symbol, written =>
    ∃ first rest, written = first :: rest ∧ isSymbolStart first = true ∧
      ∀ point ∈ rest, isSymbolPoint point = true

/-- The part of a text at its start that is its first lexeme: the longest one
that fits the pattern, where no part fits a pattern that is tried before. -/
structure Begins (kind : LexemeClass) (written text : Text) : Prop where
  initial : written <+: text
  matched : kind.Matches written
  longest : ∀ other, kind.Matches other → other <+: text →
      other.length ≤ written.length
  first : ∀ earlier ∈ (table.map Prod.fst).takeWhile (· ≠ kind),
    ∀ other, earlier.Matches other → ¬other <+: text

/-- No part of the text at its start fits any pattern. -/
def Unmatched (text : Text) : Prop :=
  ∀ kind : LexemeClass, ∀ written, kind.Matches written → ¬written <+: text

/-! ## Measures and patterns -/

/-- The measure finds the longest part that fits the pattern, if any part
does. -/
structure Measures (pattern : Text → Prop) (measure : Text → Option Nat) :
    Prop where
  matched : ∀ {text count}, measure text = some count →
      pattern (text.take count)
  longest : ∀ {text part}, pattern part → part <+: text →
    ∃ count, measure text = some count ∧ part.length ≤ count

section Measures

variable {pattern other : Text → Prop} {measure : Text → Option Nat}
  {accepts : CodePoint → Bool}

theorem Measures.congr (measures : Measures pattern measure)
    (same : ∀ part, other part ↔ pattern part) : Measures other measure where
  matched measured := (same _).mpr (measures.matched measured)
  longest fits initial := measures.longest ((same _).mp fits) initial

theorem measures_zero : Measures (· = []) fun _ => some 0 where
  matched measured := by
    obtain rfl := Option.some.inj measured
    exact List.take_zero
  longest empty _ := ⟨0, rfl, by simp [empty]⟩

/-- The longest part of a class of code points is the part up to the first one
outside. -/
theorem measures_spanLength (accepts : CodePoint → Bool) :
    Measures (fun part => ∀ point ∈ part, accepts point = true)
      fun text => some (spanLength accepts text) where
  matched measured := by
    obtain rfl := Option.some.inj measured
    rw [take_spanLength]
    exact fun _ member => List.mem_takeWhile_imp member
  longest {text part} fits initial := by
    obtain ⟨others, rfl⟩ := initial
    refine ⟨_, rfl, ?_⟩
    rw [spanLength, List.takeWhile_append_of_pos fits, List.length_append]
    exact Nat.le_add_right _ _

theorem measures_someOf (accepts : CodePoint → Bool) :
    Measures (fun part => part ≠ [] ∧ ∀ point ∈ part, accepts point = true)
      (someOf accepts) where
  matched measured := take_of_someOf measured
  longest {text part} fits initial := by
    obtain ⟨count, measured, bounded⟩ :=
      (measures_spanLength accepts).longest fits.2 initial
    obtain rfl := Option.some.inj measured
    have positive := List.length_pos_iff.mpr fits.1
    exact ⟨_, someOf_eq_some_iff.mpr ⟨rfl, by omega⟩, bounded⟩

theorem measures_afterMark (measures : Measures pattern measure)
    (mark : CodePoint) :
    Measures (fun part => ∃ rest, part = mark :: rest ∧ pattern rest)
      (afterMark mark measure) where
  matched measured := by
    obtain ⟨rest, length, rfl, later, rfl⟩ := afterMark_eq_some_iff.mp measured
    exact ⟨rest.take length, List.take_succ_cons, measures.matched later⟩
  longest fits initial := by
    obtain ⟨rest, rfl, fits⟩ := fits
    obtain ⟨others, rfl⟩ := initial
    obtain ⟨count, measured, bounded⟩ :=
      measures.longest fits (List.prefix_append rest others)
    refine ⟨count + 1, afterMark_eq_some_iff.mpr ⟨rest ++ others, count, rfl,
      measured, rfl⟩, ?_⟩
    exact Nat.succ_le_succ bounded

/-- What follows the span must not go on it. -/
theorem measures_afterSpan (measures : Measures pattern measure)
    (apart : ∀ part, pattern part → ∃ point rest, part = point :: rest ∧
      accepts point = false) :
    Measures (fun part => ∃ span rest, part = span ++ rest ∧
        (∀ point ∈ span, accepts point = true) ∧ pattern rest)
          (afterSpan accepts measure) where
  matched {text count} measured := by
    obtain ⟨length, later, rfl⟩ := Option.map_eq_some_iff.mp measured
    refine ⟨_, _, List.take_add, ?_, measures.matched later⟩
    rw [take_spanLength]
    exact fun _ member => List.mem_takeWhile_imp member
  longest fits initial := by
    obtain ⟨span, rest, rfl, accepted, fits⟩ := fits
    obtain ⟨others, rfl⟩ := initial
    obtain ⟨point, later, rfl, outside⟩ := apart rest fits
    have length :
        spanLength accepts (span ++ point :: later ++ others) =
          span.length := by
      rw [spanLength, List.append_assoc, List.takeWhile_append_of_pos accepted]
      simp [outside]
    obtain ⟨count, measured, bounded⟩ :=
      measures.longest fits (List.prefix_append (point :: later) others)
    refine ⟨span.length + count, ?_, ?_⟩
    · rw [afterSpan, length, List.append_assoc, List.drop_left, measured]
      rfl
    · rw [List.length_append]
      exact Nat.add_le_add_left bounded _

end Measures

/-! ## String literals -/

theorem doubleQuotes_quote (contents : Text) :
    Atom.doubleQuotes (CodePoint.ofChar '"' :: contents) =
      CodePoint.ofChar '"' :: CodePoint.ofChar '"' :: Atom.doubleQuotes
        contents := by
  simp [Atom.doubleQuotes]
  rfl

theorem doubleQuotes_cons {point : CodePoint} (other : point ≠ '"')
    (contents : Text) :
    Atom.doubleQuotes (point :: contents) =
      point :: Atom.doubleQuotes contents := by
  simp [Atom.doubleQuotes, other]

/-- A literal ends with the last quote that makes the quotes before it pairs. -/
theorem measures_closingQuote :
    Measures (fun part => ∃ contents, part = Atom.doubleQuotes contents ++ "\"")
      closingQuote where
  matched {text count} closed := by
    induction text using closingQuote.induct generalizing count with
    | case1 => cases closed
    | case2 =>
        obtain rfl := Option.some.inj closed
        exact ⟨[], rfl⟩
    | case3 point other =>
        rw [closingQuote, if_neg other] at closed
        cases closed
    | case4 rest inductionHypothesis =>
        rw [closingQuote, if_pos rfl, if_pos rfl] at closed
        cases later : closingQuote rest with
        | none =>
            rw [later] at closed
            obtain rfl := Option.some.inj closed
            exact ⟨[], rfl⟩
        | some length =>
            rw [later] at closed
            obtain rfl := Option.some.inj closed
            obtain ⟨contents, shape⟩ := inductionHypothesis later
            refine ⟨CodePoint.ofChar '"' :: contents, ?_⟩
            rw [Option.map_some, Option.getD_some, List.take_succ_cons,
              List.take_succ_cons, shape, doubleQuotes_quote]
            rfl
    | case5 next rest other =>
        rw [closingQuote, if_pos rfl, if_neg other] at closed
        obtain rfl := Option.some.inj closed
        exact ⟨[], rfl⟩
    | case6 point next rest other inductionHypothesis =>
        rw [closingQuote, if_neg other] at closed
        obtain ⟨length, later, rfl⟩ := Option.map_eq_some_iff.mp closed
        obtain ⟨contents, shape⟩ := inductionHypothesis later
        refine ⟨point :: contents, ?_⟩
        rw [List.take_succ_cons, shape, doubleQuotes_cons other]
        rfl
  longest {text part} fits initial := by
    obtain ⟨contents, rfl⟩ := fits
    obtain ⟨others, rfl⟩ := initial
    induction contents with
    | nil =>
        cases closed : closingQuote ("\"" ++ others) with
        | none =>
            refine absurd (closingQuote_eq_none_iff.mp closed) (not_not.mpr ?_)
            exact List.mem_append_left others (List.mem_singleton_self _)
        | some count => exact ⟨count, closed, closingQuote_pos closed⟩
    | cons point contents inductionHypothesis =>
        obtain ⟨count, closed, bounded⟩ := inductionHypothesis
        by_cases quote : point = '"'
        · subst quote
          refine ⟨count + 2, ?_, ?_⟩
          · rw [doubleQuotes_quote, List.cons_append, List.cons_append,
              List.cons_append, List.cons_append, closingQuote, if_pos rfl,
              if_pos rfl, closed]
            rfl
          · rw [doubleQuotes_quote]
            exact Nat.add_le_add_right bounded 2
        · refine ⟨count + 1, ?_, ?_⟩
          · rw [doubleQuotes_cons quote]
            exact (closingQuote_cons quote).trans (congrArg _ closed)
          · rw [doubleQuotes_cons quote]
            exact Nat.add_le_add_right bounded 1

/-! ## Recognizers and patterns -/

def wholeLength (recognizer : Recognizer) : Text → Option Nat
  | [] => none
  | first :: rest => (recognizer first rest).map (· + 1)

/-- A recognizer measures its pattern behind the first code point. -/
theorem measures_wholeLength {pattern : Text → Prop}
    {measure : Text → Option Nat} (measures : Measures pattern measure)
    {condition : CodePoint → Prop}
    [DecidablePred condition] {recognizer : Recognizer}
    (shape : ∀ first rest, recognizer first rest = if condition first
      then measure rest else none) :
    Measures (fun part => ∃ first rest, part = first :: rest ∧ condition first ∧
      pattern rest) (wholeLength recognizer) where
  matched {text count} measured := by
    cases text with
    | nil => cases measured
    | cons first rest =>
        obtain ⟨length, recognized, rfl⟩ := Option.map_eq_some_iff.mp measured
        rw [shape] at recognized
        obtain ⟨holds, later⟩ := Option.ite_none_right_eq_some.mp recognized
        exact ⟨first, rest.take length, List.take_succ_cons, holds,
          measures.matched later⟩
  longest fits initial := by
    obtain ⟨first, rest, rfl, holds, fits⟩ := fits
    obtain ⟨others, rfl⟩ := initial
    obtain ⟨count, later, bounded⟩ :=
      measures.longest fits (List.prefix_append rest others)
    refine ⟨count + 1, ?_, Nat.succ_le_succ bounded⟩
    rw [List.cons_append, wholeLength, shape, if_pos holds, later]
    rfl

theorem nonempty_iff_cons {accepts : CodePoint → Bool} (part : Text) :
    (part ≠ [] ∧ ∀ point ∈ part, accepts point = true) ↔
      ∃ first rest, part = first :: rest ∧ accepts first = true ∧
        ∀ point ∈ rest, accepts point = true := by
  cases part <;> simp

theorem isBarContent_iff {point : CodePoint} :
    isBarContent point = true ↔ point ≠ '|' ∧ point ≠ '\\' := by
  simp [isBarContent]

theorem isBit_iff {point : CodePoint} : isBit point = true ↔
    point = '0' ∨ point = '1' := by
  simp [isBit]

/-- The recognizer of each class finds the longest part that fits the pattern of
the class. -/
theorem measures_recognizerOf (kind : LexemeClass) :
    Measures kind.Matches (wholeLength (recognizerOf kind)) := by
  cases kind with
  | comment =>
      refine (measures_wholeLength (measures_spanLength _) fun _ _ => rfl).congr
        fun part => ?_
      constructor
      · rintro ⟨rest, rfl, plain⟩
        exact ⟨_, rest, rfl, rfl, by simpa using plain⟩
      · rintro ⟨_, rest, rfl, rfl, plain⟩
        exact ⟨rest, rfl, by simpa using plain⟩
  | blank =>
      exact (measures_wholeLength (measures_spanLength _) fun _ _ => rfl).congr
        nonempty_iff_cons
  | leftParenthesis | rightParenthesis =>
      refine (measures_wholeLength measures_zero fun _ _ => rfl).congr
        fun part => ?_
      constructor
      · rintro rfl
        exact ⟨_, _, rfl, rfl, rfl⟩
      · rintro ⟨_, _, rfl, rfl, rfl⟩
        rfl
  | string =>
      refine (measures_wholeLength measures_closingQuote fun _ _ => rfl).congr
        fun part => ?_
      constructor
      · rintro ⟨contents, rfl⟩
        exact ⟨_, _, rfl, rfl, contents, rfl⟩
      · rintro ⟨_, _, rfl, rfl, contents, rfl⟩
        exact ⟨contents, rfl⟩
  | quotedSymbol =>
      have apart :
          ∀ part : Text,
            (∃ rest, part = CodePoint.ofChar '|' :: rest ∧ rest = []) →
          ∃ point rest, part = point :: rest ∧ isBarContent point = false := by
        rintro _ ⟨rest, rfl, _⟩
        exact ⟨_, _, rfl, by decide⟩
      refine (measures_wholeLength
        (measures_afterSpan (measures_afterMark measures_zero _) apart)
        quotedSymbol_eq).congr fun part => ?_
      constructor
      · rintro ⟨name, rfl, plain⟩
        exact ⟨_, _, rfl, rfl, name, _, rfl, fun point member =>
          isBarContent_iff.mpr (plain point member), [], rfl, rfl⟩
      · rintro ⟨_, _, rfl, rfl, name, _, rfl, plain, _, rfl, rfl⟩
        exact ⟨name, rfl, fun point member => isBarContent_iff.mp
          (plain point member)⟩
  | hexadecimal =>
      refine (measures_wholeLength (measures_afterMark (measures_someOf _) _)
        (based_eq _ _)).congr fun part => ?_
      constructor
      · rintro ⟨digits, rfl, nonempty, each⟩
        exact ⟨_, _, rfl, rfl, digits, rfl, nonempty, each⟩
      · rintro ⟨_, _, rfl, rfl, digits, rfl, nonempty, each⟩
        exact ⟨digits, rfl, nonempty, each⟩
  | binary =>
      refine (measures_wholeLength (measures_afterMark (measures_someOf _) _)
        (based_eq _ _)).congr fun part => ?_
      constructor
      · rintro ⟨digits, rfl, nonempty, each⟩
        exact ⟨_, _, rfl, rfl, digits, rfl, nonempty, fun point member =>
          isBit_iff.mpr (each point member)⟩
      · rintro ⟨_, _, rfl, rfl, digits, rfl, nonempty, each⟩
        exact ⟨digits, rfl, nonempty,
          fun point member => isBit_iff.mp (each point member)⟩
  | decimal =>
      have apart :
          ∀ part : Text, (∃ rest : Text, part = CodePoint.ofChar '.' :: rest ∧
            rest ≠ [] ∧ ∀ point ∈ rest, point.isDigit = true) →
          ∃ point rest, part = point :: rest ∧ point.isDigit = false := by
        rintro _ ⟨rest, rfl, _⟩
        exact ⟨_, _, rfl, by decide⟩
      refine (measures_wholeLength
        (measures_afterSpan (measures_afterMark (measures_someOf _) _)
        apart) decimal_eq).congr fun part => ?_
      constructor
      · rintro ⟨whole, part, rfl, wholeNonempty, nonempty, wholeDigits, digits⟩
        obtain ⟨first, rest, rfl, firstDigit, restDigits⟩ :=
          (nonempty_iff_cons whole).mp ⟨wholeNonempty, wholeDigits⟩
        exact ⟨first, _, List.append_assoc _ _ _, firstDigit, rest, _, rfl,
          restDigits, part, rfl, nonempty, digits⟩
      · rintro ⟨first, _, rfl, firstDigit, rest, _, rfl, restDigits, part, rfl,
          nonempty, digits⟩
        obtain ⟨wholeNonempty, wholeDigits⟩ :=
          (nonempty_iff_cons (first :: rest)).mpr ⟨first, rest, rfl, firstDigit,
            restDigits⟩
        exact ⟨first :: rest, part,
          (List.append_assoc (first :: rest) "." part).symm, wholeNonempty,
          nonempty, wholeDigits, digits⟩
  | numeral =>
      exact (measures_wholeLength (measures_spanLength _) fun _ _ => rfl).congr
        nonempty_iff_cons
  | keyword =>
      refine (measures_wholeLength (measures_someOf _) fun _ _ => rfl).congr
        fun part => ?_
      constructor
      · rintro ⟨name, rfl, nonempty, each⟩
        exact ⟨_, _, rfl, rfl, nonempty, each⟩
      · rintro ⟨_, name, rfl, rfl, nonempty, each⟩
        exact ⟨name, rfl, nonempty, each⟩
  | symbol => exact measures_wholeLength (measures_spanLength _) fun _ _ => rfl

/-! ## Lexemes at the start of a text -/

variable {first : CodePoint} {rest : Text} {kind : LexemeClass} {count : Nat}

theorem LexemeClass.Matches.ne_nil {written : Text}
    (matched : kind.Matches written) :
    written ≠ [] := by
  obtain ⟨count, measured, _⟩ :=
    (measures_recognizerOf kind).longest matched List.prefix_rfl
  rintro rfl
  cases measured

theorem not_initial_of_unrecognized
    (unrecognized : recognizerOf kind first rest = none) {part : Text}
    (matched : kind.Matches part) : ¬part <+: first :: rest := by
  intro initial
  obtain ⟨count, measured, _⟩ :=
    (measures_recognizerOf kind).longest matched initial
  rw [wholeLength, unrecognized] at measured
  cases measured

/-- Where no lexeme is recognized no pattern fits. -/
theorem unmatched_of_recognize (unrecognized : recognize first rest = none) :
    Unmatched (first :: rest) := by
  have complete : ∀ kind : LexemeClass, ∃ entry ∈ table, entry.1 = kind := by
    intro kind
    cases kind <;> simp [table]
  intro kind written matched
  obtain ⟨⟨kind, recognizer⟩, member, rfl⟩ := complete kind
  rw [recognize, List.findSome?_eq_none_iff] at unrecognized
  have none := Option.map_eq_none_iff.mp (unrecognized _ member)
  rw [← recognizerOf_of_mem_table _ member] at none
  exact not_initial_of_unrecognized none matched

/-- A recognized lexeme is the longest part that fits the pattern of its class,
and no class before fits. -/
theorem begins_of_recognize
    (recognized : recognize first rest = some (kind, count)) :
    Begins kind (first :: rest.take count) (first :: rest) where
  initial := by
    rw [List.prefix_cons_inj]
    exact List.take_prefix count rest
  matched := by
    have measured :
        wholeLength (recognizerOf kind) (first :: rest) = some (count + 1) := by
      rw [wholeLength, matched_of_recognize recognized]
      rfl
    exact (measures_recognizerOf kind).matched measured
  longest other matched initial := by
    obtain ⟨length, measured, bounded⟩ :=
      (measures_recognizerOf kind).longest matched initial
    rw [wholeLength, matched_of_recognize recognized] at measured
    obtain rfl := Option.some.inj measured
    rwa [List.length_cons,
      List.length_take_of_le (le_length_of_recognize recognized)]
  first earlier member other matched := by
    rw [recognize, List.findSome?_eq_some_iff] at recognized
    obtain ⟨before, ⟨found, recognizer⟩, after, split, here, absent⟩ :=
      recognized
    obtain ⟨length, _, pair⟩ := Option.map_eq_some_iff.mp here
    obtain ⟨rfl, rfl⟩ := Prod.mk.inj pair
    have among : earlier ∈ before.map Prod.fst := by
      rw [split, List.map_append, List.map_cons, List.takeWhile_append]
        at member
      split_ifs at member
      · simpa using member
      · exact (List.takeWhile_prefix _).subset member
    obtain ⟨entry, entryMember, rfl⟩ := List.mem_map.mp among
    have none := Option.map_eq_none_iff.mp (absent entry entryMember)
    rw [← recognizerOf_of_mem_table entry
      (split ▸ List.mem_append_left _ entryMember)] at none
    exact not_initial_of_unrecognized none matched

end ModelAudit.Lexer
