import Mathlib.Data.List.Induction
import Mathlib.Data.Nat.Digits.Defs
import ModelAudit.Proofs.Identifier
import ModelAudit.Proofs.Outlines

/-!
# String literals

A text is written into a string literal code point by code point, each in one of
several ways. Whichever ways are mixed, the literal ends at its own closing
quote, and what the scanner makes of it is the text that was written.
-/

namespace ModelAudit

/-! ## Digits -/

namespace Text

/-- Hexadecimal digits of either case, the most significant first. -/
def IsHexadecimal (digits : Text) (number : Nat) : Prop :=
  ∃ values : List Nat, digits.map CodePoint.hexValue? = values.map some ∧
    Nat.ofDigits 16 values.reverse = number

theorem IsHexadecimal.read {digits : Text} {number : Nat}
    (denotes : digits.IsHexadecimal number) :
    digits.all CodePoint.isHexDigit = true ∧ baseValue 16 digits = number := by
  obtain ⟨values, shape, rfl⟩ := denotes
  induction digits using List.reverseRecOn generalizing values with
  | nil =>
      obtain rfl := List.map_eq_nil_iff.mp shape.symm
      exact ⟨rfl, rfl⟩
  | append_singleton digits last inductionHypothesis =>
      rw [List.map_append, List.map_singleton] at shape
      obtain ⟨earlier, rest, rfl, earlierShape, restShape⟩ :=
        List.map_eq_append_iff.mp shape.symm
      obtain ⟨value, rfl, isValue⟩ := List.map_eq_singleton_iff.mp restShape
      obtain ⟨allDigits, number⟩ :=
        inductionHypothesis earlier earlierShape.symm
      constructor
      · rw [List.all_append, allDigits]
        simp [CodePoint.isHexDigit, ← isValue]
      · rw [baseValue_concat, number, ← isValue, List.reverse_append,
          List.reverse_singleton, List.singleton_append, Nat.ofDigits_cons,
          Option.getD_some]
        exact Nat.add_comm _ _

/-- None of the marks that delimit a literal or an escape is a digit. -/
theorem IsHexadecimal.mark_notMem {digits : Text} {number : Nat}
    {mark : CodePoint} (denotes : digits.IsHexadecimal number)
    (noDigit : mark.isHexDigit = false) :
    mark ∉ digits := by
  intro member
  have digit := List.all_eq_true.mp denotes.read.1 mark member
  rw [noDigit] at digit
  cases digit

theorem pointOfDigits_of_isHexadecimal {least most : Nat} {digits : Text}
    {point : CodePoint} (denotes : digits.IsHexadecimal point.toNat)
    (enough : least ≤ digits.length)
    (few : digits.length ≤ most) :
    pointOfDigits least most digits = .ok point := by
  obtain ⟨allDigits, number⟩ := denotes.read
  rw [pointOfDigits, allDigits, number, CodePoint.ofNat?_toNat,
    decide_eq_true enough, decide_eq_true few]
  rfl

/-! ## Escapes -/

variable {point : CodePoint} {digits rest tail : Text}

theorem unescape_of_ne (plain : point ≠ '\\')
    (later : unescape rest = .ok tail) :
    unescape (point :: rest) = .ok (point :: tail) := by
  rw [unescape.eq_def]
  dsimp only
  rw [if_neg plain, later, Outcome.ok_bind]
  rfl

theorem unescape_backslashes (later : unescape rest = .ok tail) :
    unescape ('\\' :: '\\' :: rest) = .ok ('\\' :: tail) := by
  rw [unescape.eq_def]
  dsimp only
  rw [if_pos rfl]
  rw [if_neg (by decide), if_neg (by decide), later, Outcome.ok_bind]
  rfl

theorem takeWhile_of_isHexadecimal
    (denotes : digits.IsHexadecimal point.toNat) :
    (digits ++ CodePoint.ofChar '\x7d' :: rest).takeWhile
        (fun inside => !isClosingBrace inside) =
      digits := by
  have noBrace : ∀ inside ∈ digits, (!isClosingBrace inside) = true := by
    intro inside member
    rw [isClosingBrace, Bool.not_eq_true', decide_eq_false_iff_not]
    rintro rfl
    exact denotes.mark_notMem (by decide) member
  rw [List.takeWhile_append_of_pos noBrace,
    List.takeWhile_cons_of_neg (by decide), List.append_nil]

/-- Digits between braces are decoded to their code point. -/
theorem unescape_braces (denotes : digits.IsHexadecimal point.toNat)
    (enough : 1 ≤ digits.length) (few : digits.length ≤ 5)
    (later : unescape rest = .ok tail) :
    unescape ('\\' :: 'u' :: '\x7b' ::
        (digits ++ CodePoint.ofChar '\x7d' :: rest)) =
      .ok (point :: tail) := by
  have closed :
      digits.length ≠ (digits ++ CodePoint.ofChar '\x7d' :: rest).length := by
    rw [List.length_append, List.length_cons]
    omega
  have following :
      (digits ++ CodePoint.ofChar '\x7d' :: rest).drop (digits.length + 1) =
        rest := by
    rw [List.drop_append, List.drop_eq_nil_of_le (Nat.le_succ _),
      Nat.add_sub_cancel_left]
    rfl
  rw [unescape.eq_def]
  dsimp only
  rw [if_pos rfl]
  rw [if_pos rfl, if_pos rfl, takeWhile_of_isHexadecimal denotes, if_neg closed,
    following, pointOfDigits_of_isHexadecimal denotes enough few,
    Outcome.ok_bind, later]
  rfl

/-- Four digits are decoded to their code point. -/
theorem unescape_fourDigits (denotes : digits.IsHexadecimal point.toNat)
    (four : digits.length = 4) (later : unescape rest = .ok tail) :
    unescape ('\\' :: 'u' :: (digits ++ rest)) = .ok (point :: tail) := by
  obtain ⟨first, others, rfl⟩ := List.exists_cons_of_length_eq_add_one four
  have three : others.length = 3 := Nat.succ.inj four
  have noBrace : first ≠ CodePoint.ofChar '\x7b' := by
    rintro rfl
    exact denotes.mark_notMem (by decide) List.mem_cons_self
  rw [unescape.eq_def]
  dsimp only [List.cons_append]
  rw [if_pos rfl]
  rw [if_pos rfl, if_neg noBrace, ← List.cons_append, List.take_left' four,
    List.drop_left' three,
    pointOfDigits_of_isHexadecimal denotes four.ge four.le,
    Outcome.ok_bind, later]
  rfl

theorem unescape_twoDigits (denotes : digits.IsHexadecimal point.toNat)
    (two : digits.length = 2) (later : unescape rest = .ok tail) :
    unescape ('\\' :: 'x' :: (digits ++ rest)) = .ok (point :: tail) := by
  rw [unescape.eq_def]
  dsimp only
  rw [if_pos rfl]
  rw [if_neg (by decide), if_pos rfl, List.take_left' two, List.drop_left' two,
    pointOfDigits_of_isHexadecimal denotes two.ge two.le,
    Outcome.ok_bind, later]
  rfl

end Text

/-! ## Writing into a literal -/

namespace Lexer

/-- The ways to write a code point between double quotes. -/
inductive Spells (point : CodePoint) : Text → Prop
  | itself : point ≠ '"' → point ≠ '\\' → Spells point [point]
  | twoQuotes : point = '"' →
      Spells point [CodePoint.ofChar '"', CodePoint.ofChar '"']
  | twoBackslashes : point = '\\' →
      Spells point [CodePoint.ofChar '\\', CodePoint.ofChar '\\']
  /-- One to five digits in braces. -/
  | braces {digits : Text} : digits.IsHexadecimal point.toNat →
      1 ≤ digits.length →
      digits.length ≤ 5 →
      Spells point
        ('\\' :: 'u' :: '\x7b' :: (digits ++ [CodePoint.ofChar '\x7d']))
  | fourDigits {digits : Text} : digits.IsHexadecimal point.toNat →
      digits.length = 4 →
      Spells point ('\\' :: 'u' :: digits)
  | twoDigits {digits : Text} : digits.IsHexadecimal point.toNat →
      digits.length = 2 →
      Spells point ('\\' :: 'x' :: digits)

/-- The ways to write a text between double quotes, each code point in a way of
its own. -/
inductive Encodes : Text → Text → Prop
  | nil : Encodes [] []
  | cons {point : CodePoint} {contents written rest : Text} :
      Spells point written → Encodes contents rest →
      Encodes (point :: contents) (written ++ rest)

variable {point : CodePoint}
  {contents encoding written front rest after tail : Text}

/-- A quote is either doubled or does not occur at all. -/
theorem Spells.quote_cases (spells : Spells point written) :
    point = '"' ∧ written = [CodePoint.ofChar '"', CodePoint.ofChar '"'] ∨
      CodePoint.ofChar '"' ∉ written := by
  have noQuote :
      ∀ {letter : CodePoint} {digits : Text}, digits.IsHexadecimal point.toNat →
      CodePoint.ofChar '"' ≠ letter →
        CodePoint.ofChar '"' ∉ CodePoint.ofChar '\\' :: letter :: digits := by
    intro letter digits denotes other
    rw [List.mem_cons, List.mem_cons, not_or, not_or]
    exact ⟨by decide, other, denotes.mark_notMem (by decide)⟩
  cases spells with
  | itself noQuote _ =>
    exact .inr fun member => noQuote (List.mem_singleton.mp member).symm
  | twoQuotes isQuote => exact .inl ⟨isQuote, rfl⟩
  | twoBackslashes _ => exact .inr (by decide)
  | braces denotes _ _ =>
      refine .inr ?_
      simp only [List.mem_cons, List.mem_append, List.not_mem_nil,
        or_false, not_or]
      exact ⟨by decide, by decide, by decide, denotes.mark_notMem (by decide),
        by decide⟩
  | fourDigits denotes _ =>
    exact .inr (noQuote denotes fun same => absurd same (by decide))
  | twoDigits denotes _ =>
    exact .inr (noQuote denotes fun same => absurd same (by decide))

/-! ## The closing quote -/

/-- A quote that no other one follows closes the literal. -/
theorem closingQuote_quote (ends : after.head? ≠ some (CodePoint.ofChar '"')) :
    closingQuote (CodePoint.ofChar '"' :: after) = some 1 := by
  cases after with
  | nil => rfl
  | cons next after =>
      rw [closingQuote, if_pos rfl,
        if_neg fun same => ends (congrArg some same)]

/-- The closing quote comes behind any text without quotes. -/
theorem closingQuote_of_notMem {count : Nat}
    (free : CodePoint.ofChar '"' ∉ front)
    (closed : closingQuote rest = some count) :
    closingQuote (front ++ rest) = some (front.length + count) := by
  induction front with
  | nil => rw [List.nil_append, closed, List.length_nil, Nat.zero_add]
  | cons point front inductionHypothesis =>
      obtain ⟨other, laterFree⟩ := not_or.mp (mt List.mem_cons.mpr free)
      rw [List.cons_append, closingQuote_cons (Ne.symm other),
        inductionHypothesis laterFree, Option.map_some, List.length_cons]
      congr 1
      omega

/-- No way of writing a code point closes the literal. -/
theorem Spells.closingQuote {count : Nat} (spells : Spells point written)
    (closed : closingQuote rest = some count) :
    closingQuote (written ++ rest) = some (written.length + count) := by
  obtain ⟨_, rfl⟩ | free := spells.quote_cases
  · rw [List.cons_append, List.singleton_append, Lexer.closingQuote, if_pos rfl,
      if_pos rfl, closed, Option.map_some, Option.getD_some, Nat.add_comm]
    rfl
  · exact closingQuote_of_notMem free closed

theorem Encodes.closingQuote (encodes : Encodes contents encoding)
    (ends : after.head? ≠ some (CodePoint.ofChar '"')) :
    closingQuote (encoding ++ CodePoint.ofChar '"' :: after) =
      some (encoding.length + 1) := by
  induction encodes with
  | nil => exact closingQuote_quote ends
  | cons spells _ inductionHypothesis =>
      rw [List.append_assoc, spells.closingQuote inductionHypothesis,
        List.length_append, Nat.add_assoc]

/-! ## The contents -/

theorem mergeQuotes_cons (other : point ≠ '"') :
    mergeQuotes (point :: rest) = point :: mergeQuotes rest := by
  cases rest with
  | nil => rw [mergeQuotes, mergeQuotes]
  | cons next rest =>
      rw [mergeQuotes, decide_eq_false other]
      rfl

theorem mergeQuotes_of_notMem (free : CodePoint.ofChar '"' ∉ front) :
    mergeQuotes (front ++ rest) = front ++ mergeQuotes rest := by
  induction front with
  | nil => rfl
  | cons point front inductionHypothesis =>
      obtain ⟨other, laterFree⟩ := not_or.mp (mt List.mem_cons.mpr free)
      rw [List.cons_append, mergeQuotes_cons (Ne.symm other),
        inductionHypothesis laterFree, List.cons_append]

/-- Once doubled quotes are merged, what was written for a code point is read as
that code point. -/
theorem Spells.read (spells : Spells point written)
    (later : Text.unescape (mergeQuotes rest) = .ok tail) :
    Text.unescape (mergeQuotes (written ++ rest)) = .ok (point :: tail) := by
  obtain ⟨rfl, rfl⟩ | free := spells.quote_cases
  · rw [List.cons_append, List.singleton_append, mergeQuotes]
    exact Text.unescape_of_ne (by decide) later
  rw [mergeQuotes_of_notMem free]
  cases spells with
  | itself _ noBackslash => exact Text.unescape_of_ne noBackslash later
  | twoQuotes _ => exact absurd List.mem_cons_self free
  | twoBackslashes isBackslash =>
      subst isBackslash
      exact Text.unescape_backslashes later
  | braces denotes enough few =>
      simp only [List.cons_append, List.append_assoc, List.nil_append]
      exact Text.unescape_braces denotes enough few later
  | fourDigits denotes four => exact Text.unescape_fourDigits denotes four later
  | twoDigits denotes two => exact Text.unescape_twoDigits denotes two later

theorem Encodes.read (encodes : Encodes contents encoding) :
    Text.unescape (mergeQuotes encoding) = .ok contents := by
  induction encodes with
  | nil =>
      rw [mergeQuotes, Text.unescape]
  | cons spells _ inductionHypothesis => exact spells.read inductionHypothesis

/-! ## The token -/

theorem recognize_quote {count : Nat}
    (closed : closingQuote rest = some count) :
    recognize '"' rest = some (.string, count) := by
  have notSemicolon : CodePoint.ofChar '"' ≠ ';' := by decide
  have notBlank : (CodePoint.ofChar '"').isBlank = false := by decide
  have notOpening : CodePoint.ofChar '"' ≠ '(' := by decide
  have notClosing : CodePoint.ofChar '"' ≠ ')' := by decide
  simp [recognize, table, comment, blank, single, string, notSemicolon,
    notBlank, notOpening, notClosing, closed]

def literal (encoding : Text) : Text :=
  '"' :: (encoding ++ [CodePoint.ofChar '"'])

theorem inside_literal (encoding : Text) :
    inside (literal encoding) = encoding := by
  rw [inside, literal, List.drop_one, List.tail_cons, List.dropLast_concat]

/-- Scanning a text comes to a place inside it: to the text from there on, at a
position, with the tokens that end before. -/
inductive Reaches (text : Text) : List Token → Position → Text → Prop
  | start : Reaches text [] .start text
  | lexeme {before : List Token} {position : Position} {first : CodePoint}
      {rest : Text} {kind : LexemeClass} {count : Nat}
      {lexeme : Option Lexeme} :
      Reaches text before position (first :: rest) →
      recognize first rest = some (kind, count) →
      lexemeOf kind (first :: rest.take count) = .ok lexeme →
      Reaches text (before ++ lexeme.toList.map (⟨·, position⟩))
        (position.after (first :: rest.take count)) (rest.drop count)

theorem prepend_eq (lexeme : Option Lexeme) (position : Position)
    (scan : Scan) :
    scan.prepend lexeme position =
      ⟨lexeme.toList.map (⟨·, position⟩) ++ scan.tokens, scan.fault⟩ := by
  cases lexeme <;> rfl

/-- Scanning goes on from a place that it reaches. -/
theorem Reaches.scan_eq {text : Text} {before : List Token}
    {position : Position} (reaches : Reaches text before position rest) :
    scan text = ⟨before ++ (scanFrom position rest).tokens,
      (scanFrom position rest).fault⟩ := by
  induction reaches with
  | start => rfl
  | lexeme _ recognized lexed inductionHypothesis =>
      rw [inductionHypothesis, scanFrom, recognized]
      dsimp only
      rw [lexed]
      dsimp only
      rw [prepend_eq, List.append_assoc]

/-- Where a literal that encodes a text starts a token and no quote follows it,
the scanner takes the literal, and nothing more, as one token that holds the
text. -/
theorem scan_literal {text : Text} {before : List Token} {position : Position}
    (encodes : Encodes contents encoding)
    (reaches : Reaches text before position (literal encoding ++ after))
    (ends : after.head? ≠ some (CodePoint.ofChar '"')) :
    Reaches text (before ++ [⟨.atom (.string contents), position⟩])
        (position.after (literal encoding)) after ∧
      scan text =
        ⟨before ++ ⟨.atom (.string contents), position⟩ ::
            (scanFrom (position.after (literal encoding)) after).tokens,
          (scanFrom (position.after (literal encoding)) after).fault⟩ := by
  have shape : literal encoding ++ after =
      CodePoint.ofChar '"' :: (encoding ++ CodePoint.ofChar '"' :: after) := by
    rw [literal, List.cons_append, List.append_assoc, List.singleton_append]
  have split : encoding ++ CodePoint.ofChar '"' :: after =
      (encoding ++ [CodePoint.ofChar '"']) ++ after := by
    rw [List.append_assoc, List.singleton_append]
  have length :
      (encoding ++ [CodePoint.ofChar '"']).length = encoding.length + 1 :=
    List.length_append
  have recognized := recognize_quote (encodes.closingQuote ends)
  have lexed :
      lexemeOf .string (literal encoding) =
        .ok (some (.atom (.string contents))) := by
    rw [lexemeOf, inside_literal, encodes.read, Outcome.ok_bind]
    rfl
  have next : Reaches text (before ++ [⟨.atom (.string contents), position⟩])
      (position.after (literal encoding)) after := by
    rw [shape] at reaches
    rw [split] at reaches recognized
    have taken :
        (encoding ++ [CodePoint.ofChar '"'] ++ after).take
          (encoding.length + 1) =
        encoding ++ [CodePoint.ofChar '"'] := List.take_left' length
    rw [literal, ← taken] at lexed
    have later := reaches.lexeme recognized lexed
    rwa [taken, List.drop_left' length] at later
  refine ⟨next, ?_⟩
  rw [next.scan_eq, List.append_assoc, List.singleton_append]

/-- A doubled quote, a doubled backslash, escapes of all three lengths and a
letter. -/
def mixedEncoding : Text :=
  "\"\"\\\\\\u\x7b1F600\x7d\\x41\\u005aB"

def mixedContents : Text :=
  "\"\\😀AZB"

theorem encodes_mixed : Encodes mixedContents mixedEncoding :=
  .cons (.twoQuotes rfl) <| .cons (.twoBackslashes rfl) <|
    .cons (@Spells.braces _ "1F600" ⟨[1, 15, 6, 0, 0], by decide, by decide⟩
      (by decide) (by decide)) <|
    .cons (@Spells.twoDigits _ "41" ⟨[4, 1], by decide, by decide⟩ rfl) <|
    .cons (@Spells.fourDigits _ "005a" ⟨[0, 0, 5, 10], by decide,
      by decide⟩ rfl) <|
    .cons (.itself (by decide) (by decide)) .nil

/-- The literal in parentheses, where it starts the second of three tokens. -/
theorem scan_mixed_literal :
    Reaches ('(' :: (literal mixedEncoding ++ ")"))
        [⟨.leftParenthesis, ⟨1, 1, 0⟩⟩] ⟨1, 2, 1⟩
        (literal mixedEncoding ++ ")") ∧
      Reaches ('(' :: (literal mixedEncoding ++ ")"))
        [⟨.leftParenthesis, ⟨1, 1, 0⟩⟩,
          ⟨.atom (.string mixedContents), ⟨1, 2, 1⟩⟩]
        ((⟨1, 2, 1⟩ : Position).after (literal mixedEncoding)) ")" :=
  have opened :=
    Reaches.start.lexeme (recognize_opening (literal mixedEncoding ++ ")")) rfl
  ⟨opened, (scan_literal encodes_mixed opened (by decide)).1⟩

end Lexer

end ModelAudit
