import ModelAudit.Proofs.BalancedReading
import ModelAudit.Proofs.Outlines

/-!
# Places in a text

Every token and every expression of a text stands where its position says: the
line and the column are those of the offset, and the text holds the token there.
So do the code points and the parentheses that a text is rejected for.
-/

namespace ModelAudit

namespace Position

/-- The position behind a text: one line for each line feed, and one column for
each code point since the last one. -/
def behind (passed : Text) : Position :=
  ⟨passed.count (CodePoint.ofChar '\n') + 1,
    (passed.reverse.takeWhile fun point : CodePoint => point ≠ '\n').length + 1,
    passed.length⟩

/-- The position of the code point at an offset. -/
def ofOffset (text : Text) (offset : Nat) : Position :=
  behind (text.take offset)

theorem step_behind (passed : Text) (point : CodePoint) :
    (behind passed).step point = behind (passed ++ [point]) := by
  unfold step behind
  by_cases lineFeed : point = CodePoint.ofChar '\n'
  · subst lineFeed
    simp
  · simp [lineFeed]

theorem after_behind (passed more : Text) :
    (behind passed).after more = behind (passed ++ more) := by
  induction more generalizing passed with
  | nil => rw [List.append_nil]; rfl
  | cons point more inductionHypothesis =>
      rw [List.append_cons, ← inductionHypothesis, ← step_behind]
      rfl

theorem ofOffset_append (passed rest : Text) :
    ofOffset (passed ++ rest) passed.length = behind passed := by
  rw [ofOffset, List.take_left]

theorem offset_ofOffset {text : Text} {offset : Nat}
    (inside : offset ≤ text.length) :
    (ofOffset text offset).offset = offset :=
  List.length_take_of_le inside

end Position

/-! ## Tokens -/

namespace Lexer

/-- The code points are the lexeme as a whole. -/
def Writes (written : Text) (lexeme : Lexeme) : Prop :=
  ∃ first rest kind, written = first :: rest ∧
    recognize first rest = some (kind, rest.length) ∧
    lexemeOf kind written = .ok (some lexeme)

/-- The text holds the lexeme from the offset on. -/
def WrittenAt (text : Text) (offset : Nat) (lexeme : Lexeme) : Prop :=
  ∃ written, Writes written lexeme ∧ written <+: text.drop offset

variable {text written : Text} {offset : Nat} {lexeme : Lexeme}

theorem writes_of_recognize {first : CodePoint} {rest : Text}
    {kind : LexemeClass} {count : Nat}
    (recognized : recognize first rest = some (kind, count))
    (lexed : lexemeOf kind (first :: rest.take count) = .ok (some lexeme)) :
    Writes (first :: rest.take count) lexeme := by
  have bounded := le_length_of_recognize recognized
  have length : (rest.take count).length = count :=
    List.length_take_of_le bounded
  refine ⟨first, rest.take count, kind, rfl, ?_, lexed⟩
  rw [length]
  exact recognize_of_initial recognized (List.take_prefix _ _) length.ge

theorem Writes.eq_opening (writes : Writes written .leftParenthesis) :
    written = [CodePoint.ofChar '('] := by
  obtain ⟨first, rest, kind, rfl, recognized, lexed⟩ := writes
  obtain rfl := kind_of_leftParenthesis lexed
  obtain ⟨rfl, nothing⟩ := eq_opening_of_recognize recognized
  rw [List.length_eq_zero_iff.mp nothing]

theorem Writes.eq_closing (writes : Writes written .rightParenthesis) :
    written = [CodePoint.ofChar ')'] := by
  obtain ⟨first, rest, kind, rfl, recognized, lexed⟩ := writes
  obtain rfl := kind_of_rightParenthesis lexed
  obtain ⟨rfl, nothing⟩ := eq_closing_of_recognize recognized
  rw [List.length_eq_zero_iff.mp nothing]

theorem getElem?_of_initial {point : CodePoint} {rest : Text}
    (initial : point :: rest <+: text.drop offset) :
    text[offset]? = some point := by
  obtain ⟨later, whole⟩ := initial
  rw [← List.head?_drop, ← whole, List.cons_append, List.head?_cons]

theorem WrittenAt.lt_length (written : WrittenAt text offset lexeme) :
    offset < text.length := by
  obtain ⟨_, ⟨first, rest, _, rfl, _⟩, initial⟩ := written
  exact (List.getElem?_eq_some_iff.mp (getElem?_of_initial initial)).1

/-- A lexeme of a part of a text stands in the whole text, as far behind as the
part does. -/
theorem WrittenAt.enclose (written : WrittenAt text offset lexeme)
    (front back : Text) :
    WrittenAt (front ++ text ++ back) (front.length + offset) lexeme := by
  have inside := written.lt_length
  obtain ⟨part, writes, initial⟩ := written
  refine ⟨part, writes, ?_⟩
  rw [List.append_assoc, List.drop_append,
    List.drop_eq_nil_of_le (Nat.le_add_right _ _), List.nil_append,
    Nat.add_sub_cancel_left,
    List.drop_append_of_le_length (Nat.le_of_lt inside)]
  exact initial.trans (List.prefix_append _ _)

end Lexer

open Lexer

/-- The token stands in the text where it says. -/
structure Token.StandsIn (token : Token) (text : Text) : Prop where
  position : token.position = .ofOffset text token.position.offset
  written : WrittenAt text token.position.offset token.lexeme

/-- The fault names a code point that stands in the text where it says, or no
offset. -/
inductive ReadFault.StandsIn (text : Text) : ReadFault → Prop
  | escape {cause : EscapeCause} {line column : Nat} :
      StandsIn text ⟨.escape cause, line, column, none⟩
  | unexpected {point : CodePoint} {offset : Nat} : text[offset]? = some point →
      StandsIn text ⟨.unexpected point, (Position.ofOffset text offset).place⟩
  | unbalanced {offset : Nat} : text[offset]? = some (CodePoint.ofChar ')') →
      StandsIn text ⟨.unbalanced, (Position.ofOffset text offset).place⟩
  | unclosed {offset : Nat} : text[offset]? = some (CodePoint.ofChar '(') →
      StandsIn text ⟨.unclosed, (Position.ofOffset text offset).place⟩

theorem mem_prepend {lexeme : Option Lexeme} {position : Position} {scan : Scan}
    {token : Token} (member : token ∈ (scan.prepend lexeme position).tokens) :
    lexeme = some token.lexeme ∧ token.position = position ∨
    token ∈ scan.tokens := by
  cases lexeme with
  | none => exact .inr member
  | some lexeme =>
      rcases List.mem_cons.mp member with rfl | later
      · exact .inl ⟨rfl, rfl⟩
      · exact .inr later

/-- A scan of the rest of a text finds everything where it stands in the whole
text. -/
theorem scanFrom_standsIn (passed rest : Text) :
    (∀ token ∈ (scanFrom (.behind passed) rest).tokens,
      token.StandsIn (passed ++ rest)) ∧
      ∀ fault, (scanFrom (.behind passed) rest).fault = some fault →
        fault.StandsIn (passed ++ rest) := by
  cases rest with
  | nil =>
      rw [scanFrom]
      refine ⟨fun _ member => absurd member List.not_mem_nil, fun _ found => ?_⟩
      cases found
  | cons first rest =>
      have here : (passed ++ first :: rest)[passed.length]? = some first := by
        simp
      rw [scanFrom]
      split
      · refine ⟨fun _ member => absurd member List.not_mem_nil,
          fun fault found => ?_⟩
        obtain rfl := Option.some.inj found
        rw [← Position.ofOffset_append passed (first :: rest)]
        exact .unexpected here
      · next kind count recognized =>
        dsimp only
        split
        · refine ⟨fun _ member => absurd member List.not_mem_nil,
            fun fault found => ?_⟩
          obtain rfl := Option.some.inj found
          exact .escape
        · next lexeme lexed =>
          have whole : passed ++ first :: rest =
              (passed ++ first :: rest.take count) ++ rest.drop count := by
            rw [List.append_assoc, List.cons_append, List.take_append_drop]
          obtain ⟨tokens, faults⟩ :=
            scanFrom_standsIn (passed ++ first :: rest.take count)
              (rest.drop count)
          rw [Position.after_behind, fault_prepend]
          rw [← whole] at tokens faults
          refine ⟨fun token member => ?_, faults⟩
          rcases mem_prepend member with ⟨rfl, position⟩ | later
          · have offset : token.position.offset = passed.length := by
              rw [position]; rfl
            refine ⟨?_, _, writes_of_recognize recognized lexed, ?_⟩
            · rw [offset, Position.ofOffset_append, position]
            · rw [offset, List.drop_left]
              exact ⟨rest.drop count, by
                rw [List.cons_append, List.take_append_drop]⟩
          · exact tokens token later
termination_by rest.length
decreasing_by simp only [List.length_drop, List.length_cons]; omega

theorem scan_standsIn (text : Text) :
    (∀ token ∈ (scan text).tokens, token.StandsIn text) ∧
      ∀ fault, (scan text).fault = some fault → fault.StandsIn text :=
  scanFrom_standsIn [] text

theorem standsIn_of_tokenize {text : Text} {tokens : List Token}
    (tokenized : tokenize text = .ok tokens) :
    ∀ token ∈ tokens, token.StandsIn text := by
  rw [tokenize] at tokenized
  split at tokenized
  · obtain rfl := Except.ok.inj tokenized
    exact (scan_standsIn text).1
  · cases tokenized

/-! ## Expressions -/

namespace SExpr

/-- The expressions in an expression, itself included. -/
inductive PartOf (part : SExpr) : SExpr → Prop
  | whole : PartOf part part
  | item {item : SExpr} {items : List SExpr} {position : Position} :
      item ∈ items → PartOf part item → PartOf part (.list items position)

theorem PartOf.everywhere {holds : Atom → Prop} {part whole : SExpr}
    (within : part.PartOf whole) (everywhere : whole.Everywhere holds) :
    part.Everywhere holds := by
  induction within with
  | whole => exact everywhere
  | item member _ inductionHypothesis =>
    exact inductionHypothesis (everywhere.items _ member)

/-- The lexeme that an expression starts with. -/
def opening : SExpr → Lexeme
  | atom leaf _ => .atom leaf
  | list _ _ => .leftParenthesis

/-- The expression stands in the text where it says. -/
structure StandsIn (expression : SExpr) (text : Text) : Prop where
  position : expression.position = .ofOffset text expression.position.offset
  written : WrittenAt text expression.position.offset expression.opening

theorem mem_spellingOfAll {expression : SExpr} {expressions : List SExpr}
    {entry : Lexeme × Option Position} (member : expression ∈ expressions)
    (inside : entry ∈ expression.spelling) :
    entry ∈ spellingOfAll expressions := by
  induction expressions with
  | nil => cases member
  | cons first others inductionHypothesis =>
      rw [spellingOfAll, List.mem_append]
      rcases List.mem_cons.mp member with rfl | later
      · exact .inl inside
      · exact .inr (inductionHypothesis later)

theorem PartOf.mem_spelling {part expression : SExpr}
    (within : part.PartOf expression) :
    (part.opening, some part.position) ∈ expression.spelling := by
  induction within with
  | whole => cases part <;> simp [spelling, opening, SExpr.position]
  | item member _ inductionHypothesis =>
      rw [spelling, List.cons_append, List.mem_cons, List.mem_append]
      exact .inr (.inl (mem_spellingOfAll member inductionHypothesis))

end SExpr

theorem exists_of_mem_kept {tokens : List Token} {lexeme : Lexeme}
    {position : Position}
    (member : (lexeme, some position) ∈ tokens.map Token.kept) :
    ∃ token ∈ tokens, token.lexeme = lexeme ∧ token.position = position := by
  obtain ⟨token, inside, same⟩ := List.mem_map.mp member
  obtain ⟨sameLexeme, samePosition⟩ := Prod.mk.inj same
  split at samePosition
  · cases samePosition
  · exact ⟨token, inside, sameLexeme, Option.some.inj samePosition⟩

/-- Everything in the expressions of a text stands in the text. -/
theorem standsIn_of_read {text : Text} {expressions : List SExpr}
    (read : readExpressions text = .ok expressions) {expression part : SExpr}
    (member : expression ∈ expressions) (within : part.PartOf expression) :
    part.StandsIn text := by
  obtain ⟨tokens, tokenized, _⟩ := Outcome.bind_eq_ok.mp read
  have spells := (readExpressions_iff_balanced tokenized).2.1 expressions read
  have spelled := SExpr.mem_spellingOfAll member within.mem_spelling
  rw [spells] at spelled
  obtain ⟨token, inside, lexeme, position⟩ := exists_of_mem_kept spelled
  obtain ⟨isAt, written⟩ := standsIn_of_tokenize tokenized token inside
  rw [position] at isAt written
  rw [lexeme] at written
  exact ⟨isAt, written⟩

/-! ## Texts that are not read -/

theorem Token.StandsIn.place {token : Token} {text : Text}
    (stands : token.StandsIn text) :
    token.position.place =
      (Position.ofOffset text token.position.offset).place := by
  rw [← stands.position]

/-- The code point that a fault names stands where the fault says. -/
theorem standsIn_of_readFault {text : Text} {fault : ReadFault}
    (failed : readExpressions text = .error fault) : fault.StandsIn text := by
  rcases Outcome.bind_eq_error.mp failed
    with failed | ⟨tokens, tokenized, failed⟩
  · rw [tokenize] at failed
    split at failed
    · cases failed
    · next found =>
      obtain rfl := Except.error.inj failed
      exact (scan_standsIn text).2 _ found
  · have stands := standsIn_of_tokenize tokenized
    cases Reader.grouping tokens with
    | complete expressions _ grouped _ =>
        rw [grouped] at failed
        cases failed
    | unopened token first grouped =>
        rw [grouped] at failed
        obtain rfl := Except.error.inj failed
        obtain ⟨before, after, rfl, closing, _⟩ := first
        have here := stands token (by simp)
        obtain ⟨written, writes, initial⟩ := here.written
        rw [of_decide_eq_true closing] at writes
        rw [writes.eq_closing] at initial
        rw [here.place]
        exact .unbalanced (getElem?_of_initial initial)
    | unclosed token _ last grouped =>
        rw [grouped] at failed
        obtain rfl := Except.error.inj failed
        obtain ⟨before, after, rfl, opening, _⟩ := last
        have here := stands token (by simp)
        obtain ⟨written, writes, initial⟩ := here.written
        rw [of_decide_eq_true opening] at writes
        rw [writes.eq_opening] at initial
        rw [here.place]
        exact .unclosed (getElem?_of_initial initial)

end ModelAudit
