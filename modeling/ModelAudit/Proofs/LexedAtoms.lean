import Mathlib.Data.List.TakeWhile
import ModelAudit.Proofs.Outcome
import ModelAudit.SExpr.Reader

/-!
# Atoms as they are written

Whatever text is read, the hexadecimal and binary atoms of its expressions have
digits, and only digits of their base. Decimals have digits and points.
-/

namespace ModelAudit

/-- Numbers and bit patterns are made of what their lexical classes demand. -/
def Atom.Spelled : Atom → Prop
  | .decimal written =>
    written ≠ [] ∧ ∀ point ∈ written, point.isDigit = true ∨ point = '.'
  | .hexadecimal digits =>
    digits ≠ [] ∧ ∀ digit ∈ digits, digit.isHexDigit = true
  | .binary digits => digits ≠ [] ∧ ∀ digit ∈ digits, Lexer.isBit digit = true
  | _ => True

/-- All atoms of an expression have a property. -/
inductive SExpr.Everywhere (holds : Atom → Prop) : SExpr → Prop
  | atom {leaf : Atom} {position : Position} : holds leaf →
      Everywhere holds (.atom leaf position)
  | list {items : List SExpr} {position : Position} :
      (∀ item ∈ items, Everywhere holds item) →
      Everywhere holds (.list items position)

namespace SExpr.Everywhere

variable {holds : Atom → Prop}

theorem leaf {leaf : Atom} {position : Position}
    (everywhere : SExpr.Everywhere holds (.atom leaf position)) :
    holds leaf := by
  cases everywhere with
  | atom here => exact here

theorem items {items : List SExpr} {position : Position}
    (everywhere : SExpr.Everywhere holds (.list items position)) :
    ∀ item ∈ items, SExpr.Everywhere holds item := by
  cases everywhere with
  | list inside => exact inside

theorem weaken {other : Atom → Prop} (weaker : ∀ leaf, holds leaf → other leaf)
    {expression : SExpr} (everywhere : SExpr.Everywhere holds expression) :
    SExpr.Everywhere other expression := by
  induction everywhere with
  | atom here => exact .atom (weaker _ here)
  | list _ inductionHypothesis => exact .list inductionHypothesis

theorem both {other : Atom → Prop} {expression : SExpr}
    (everywhere : SExpr.Everywhere holds expression)
    (otherEverywhere : SExpr.Everywhere other expression) :
    SExpr.Everywhere (fun leaf => holds leaf ∧ other leaf) expression := by
  induction everywhere with
  | atom here => exact .atom ⟨here, otherEverywhere.leaf⟩
  | list _ inductionHypothesis =>
      exact .list fun item member =>
        inductionHypothesis item member (otherEverywhere.items item member)

theorem of_forall (always : ∀ leaf, holds leaf) : ∀ expression : SExpr,
    SExpr.Everywhere holds expression
  | .atom leaf _ => .atom (always leaf)
  | .list items _ => .list fun item _ => of_forall always item

end SExpr.Everywhere

/-! ## Lexical classes -/

namespace Lexer

theorem take_spanLength (accepts : CodePoint → Bool) (text : Text) :
    text.take (spanLength accepts text) = text.takeWhile accepts :=
  (List.prefix_iff_eq_take.mp (List.takeWhile_prefix accepts)).symm

/-- What a class of code points takes is not empty and fits the class. -/
theorem take_of_someOf {accepts : CodePoint → Bool} {text : Text} {count : Nat}
    (matched : someOf accepts text = some count) :
    text.take count ≠ [] ∧ ∀ point ∈ text.take count, accepts point = true := by
  rw [someOf] at matched
  split at matched
  · cases matched
  · next previous length =>
    obtain rfl := Option.some.inj matched
    have taken := take_spanLength accepts text
    rw [length] at taken
    have nonempty : text.takeWhile accepts ≠ [] := by
      rw [← List.length_pos_iff, ← spanLength, length]
      exact Nat.succ_pos previous
    rw [taken]
    exact ⟨nonempty, fun point member => List.mem_takeWhile_imp member⟩

/-- The digits of a based number follow its two marks. -/
theorem digits_of_based {letter first : CodePoint} {digit : CodePoint → Bool}
    {rest : Text} {count : Nat}
    (matched : based letter digit first rest = some count) :
    (first :: rest.take count).drop 2 ≠ [] ∧
      ∀ point ∈ (first :: rest.take count).drop 2, digit point = true := by
  rw [based.eq_def] at matched
  split at matched
  · cases matched
  · next second digits =>
    split at matched
    · obtain ⟨length, some, rfl⟩ := Option.map_eq_some_iff.mp matched
      exact take_of_someOf some
    · cases matched

theorem isDigit_of_numeral {first : CodePoint} {rest : Text} {count : Nat}
    (matched : numeral first rest = some count) :
    first.isDigit = true ∧ ∀ point ∈ rest.take count, point.isDigit = true := by
  rw [numeral] at matched
  split at matched
  · next digit =>
    obtain rfl := Option.some.inj matched
    rw [take_spanLength]
    exact ⟨digit, fun point member => List.mem_takeWhile_imp member⟩
  · cases matched

/-- A decimal point stands after the first digits, and before others. -/
theorem points_of_decimal {first : CodePoint} {rest : Text} {count : Nat}
    (matched : decimal first rest = some count) :
    ∀ point ∈ first :: rest.take count, point.isDigit = true ∨ point = '.' := by
  obtain ⟨whole, wholeMatched, matched⟩ := Option.bind_eq_some_iff.mp matched
  obtain ⟨firstDigit, wholeDigits⟩ := isDigit_of_numeral wholeMatched
  split at matched
  · cases matched
  · next separator part shape =>
    split at matched
    · next isPoint =>
      obtain ⟨length, digits, rfl⟩ := Option.map_eq_some_iff.mp matched
      have taken : rest.take (whole + 1 + length) =
          rest.take whole ++ separator :: part.take length := by
        rw [Nat.add_assoc, List.take_add, shape, Nat.add_comm 1,
          List.take_succ_cons]
      rw [taken]
      refine List.forall_mem_cons.mpr
        ⟨.inl firstDigit, List.forall_mem_append.mpr ⟨?_, ?_⟩⟩
      · exact fun point member => .inl (wholeDigits point member)
      · refine List.forall_mem_cons.mpr
          ⟨.inr isPoint, fun point member => .inl ?_⟩
        exact (take_of_someOf digits).2 point member
    · cases matched

theorem mem_table_of_recognize {first : CodePoint} {rest : Text}
    {kind : LexemeClass} {count : Nat}
    (recognized : recognize first rest = some (kind, count)) :
    ∃ recognizer, (kind, recognizer) ∈ table ∧
      recognizer first rest = some count := by
  obtain ⟨⟨other, recognizer⟩, member, matched⟩ :=
    List.exists_of_findSome?_eq_some recognized
  obtain ⟨length, counted, pair⟩ := Option.map_eq_some_iff.mp matched
  obtain ⟨rfl, rfl⟩ := Prod.mk.inj pair
  exact ⟨recognizer, member, counted⟩

/-- A recognized atom is spelled as its lexical class demands. -/
theorem spelled_of_recognize {first : CodePoint} {rest : Text}
    {kind : LexemeClass} {count : Nat} {leaf : Atom}
    (recognized : recognize first rest = some (kind, count))
    (lexed : lexemeOf kind (first :: rest.take count) =
      .ok (some (.atom leaf))) :
    leaf.Spelled := by
  obtain ⟨recognizer, member, matched⟩ := mem_table_of_recognize recognized
  cases kind with
  | hexadecimal =>
      have based : recognizer = based 'x' CodePoint.isHexDigit := by
        simpa [table] using member
      cases lexed
      exact digits_of_based (based ▸ matched)
  | binary =>
      have based : recognizer = based 'b' isBit := by simpa [table] using member
      cases lexed
      exact digits_of_based (based ▸ matched)
  | string =>
      rw [lexemeOf] at lexed
      obtain ⟨contents, _, lexed⟩ := Outcome.bind_eq_ok.mp lexed
      cases lexed
      trivial
  | comment | blank | leftParenthesis | rightParenthesis => cases lexed
  | decimal =>
      have decimals : recognizer = decimal := by simpa [table] using member
      cases lexed
      exact ⟨List.cons_ne_nil _ _, points_of_decimal (decimals ▸ matched)⟩
  | quotedSymbol | numeral | keyword | symbol =>
      cases lexed
      trivial

theorem spelled_of_mem_scanFrom (position : Position) (text : Text) :
    ∀ token ∈ (scanFrom position text).tokens, ∀ leaf,
      token.lexeme = .atom leaf →
      leaf.Spelled := by
  induction position, text using scanFrom.induct with
  | case1 position =>
      rw [scanFrom]
      exact fun _ member => absurd member List.not_mem_nil
  | case2 position first rest unrecognized =>
      rw [scanFrom, unrecognized]
      exact fun _ member => absurd member List.not_mem_nil
  | case3 position first rest kind count recognized written cause fault =>
      rw [scanFrom, recognized]
      dsimp only
      rw [fault]
      exact fun _ member => absurd member List.not_mem_nil
  | case4 position first rest kind count recognized written lexeme lexed
      inductionHypothesis =>
      rw [scanFrom, recognized]
      dsimp only
      rw [lexed]
      cases lexeme with
      | none => exact inductionHypothesis
      | some lexeme =>
          intro token member leaf isLeaf
          rcases List.mem_cons.mp member with rfl | later
          · obtain rfl : lexeme = .atom leaf := isLeaf
            exact spelled_of_recognize recognized lexed
          · exact inductionHypothesis token later leaf isLeaf

theorem spelled_of_mem_tokenize {text : Text} {tokens : List Token}
    (tokenized : tokenize text = .ok tokens) :
    ∀ token ∈ tokens, ∀ leaf, token.lexeme = .atom leaf → leaf.Spelled := by
  unfold tokenize at tokenized
  dsimp only at tokenized
  split at tokenized
  · obtain rfl := Except.ok.inj tokenized
    exact spelled_of_mem_scanFrom .start text
  · cases tokenized

end Lexer

/-! ## Grouping -/

namespace Reader

/-- All atoms collected so far have a property. -/
structure State.Everywhere (holds : Atom → Prop) (state : State) : Prop where
  opened : ∀ inner ∈ state.opened, ∀ item ∈ inner.items, item.Everywhere holds
  top : ∀ item ∈ state.top, item.Everywhere holds

variable {holds : Atom → Prop} {state next : State}

theorem State.Everywhere.add (everywhere : state.Everywhere holds)
    {expression : SExpr} (inside : expression.Everywhere holds) :
    (state.add expression).Everywhere holds := by
  unfold State.add
  split
  · exact ⟨fun _ member => absurd member List.not_mem_nil,
      List.forall_mem_cons.mpr ⟨inside, everywhere.top⟩⟩
  · next inner outer opened =>
    have before := everywhere.opened
    rw [opened, List.forall_mem_cons] at before
    exact ⟨List.forall_mem_cons.mpr
      ⟨List.forall_mem_cons.mpr ⟨inside, before.1⟩, before.2⟩,
      everywhere.top⟩

theorem State.Everywhere.step (everywhere : state.Everywhere holds)
    {token : Token} (atoms : ∀ leaf, token.lexeme = .atom leaf → holds leaf)
    (stepped : state.step token = .ok next) : next.Everywhere holds := by
  rw [State.step] at stepped
  split at stepped
  · obtain rfl := Except.ok.inj stepped
    exact ⟨List.forall_mem_cons.mpr
      ⟨fun _ member => absurd member List.not_mem_nil,
      everywhere.opened⟩, everywhere.top⟩
  · split at stepped
    · cases stepped
    · next inner outer opened =>
      obtain rfl := Except.ok.inj stepped
      have before := everywhere.opened
      rw [opened, List.forall_mem_cons] at before
      have outside : State.Everywhere holds ⟨outer, state.top⟩ :=
        ⟨before.2, everywhere.top⟩
      refine outside.add (.list fun item member => ?_)
      exact before.1 item (List.mem_reverse.mp member)
  · next leaf isLeaf =>
    obtain rfl := Except.ok.inj stepped
    exact everywhere.add (.atom (atoms leaf isLeaf))

/-- Grouping keeps a property of all atoms that its tokens have. -/
theorem State.Everywhere.run {tokens : List Token}
    (atoms : ∀ token ∈ tokens, ∀ leaf, token.lexeme = .atom leaf → holds leaf)
    (everywhere : state.Everywhere holds)
    (final : tokens.foldlM State.step state = .ok next) :
    next.Everywhere holds := by
  induction tokens generalizing state with
  | nil =>
      obtain rfl := Except.ok.inj final
      exact everywhere
  | cons token tokens inductionHypothesis =>
      rw [List.foldlM_cons] at final
      obtain ⟨middle, stepped, final⟩ := Outcome.bind_eq_ok.mp final
      obtain ⟨here, later⟩ := List.forall_mem_cons.mp atoms
      exact inductionHypothesis later (everywhere.step here stepped) final

theorem everywhere_of_mem_group {tokens : List Token} {expressions : List SExpr}
    (atoms : ∀ token ∈ tokens, ∀ leaf, token.lexeme = .atom leaf → holds leaf)
    (grouped : group tokens = .ok expressions) :
    ∀ expression ∈ expressions, expression.Everywhere holds := by
  rw [group] at grouped
  obtain ⟨final, run, grouped⟩ := Outcome.bind_eq_ok.mp grouped
  have start : State.Everywhere holds ⟨[], []⟩ := ⟨by simp, by simp⟩
  have everywhere := start.run atoms run
  split at grouped
  · obtain rfl := Except.ok.inj grouped
    intro expression member
    exact everywhere.top expression (List.mem_reverse.mp member)
  · cases grouped

end Reader

/-- Every atom of a text that is read is spelled as its class demands. -/
theorem everywhere_spelled_of_readExpressions {text : Text}
    {expressions : List SExpr} (read : readExpressions text = .ok expressions) :
    ∀ expression ∈ expressions, expression.Everywhere Atom.Spelled := by
  rw [readExpressions] at read
  obtain ⟨tokens, tokenized, grouped⟩ := Outcome.bind_eq_ok.mp read
  exact Reader.everywhere_of_mem_group
    (Lexer.spelled_of_mem_tokenize tokenized) grouped

end ModelAudit
