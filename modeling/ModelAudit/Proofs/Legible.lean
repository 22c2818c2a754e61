import ModelAudit.Proofs.FreshName
import ModelAudit.Proofs.Phrases

/-!
# Legible types and terms

The text of a legible term is read as that term. Constants are read as names,
and a conjunction of several parts as nested conjunctions of two.
-/

namespace ModelAudit

namespace InnerSyntax

/-! ## Words -/

/-- A test that rejects all delimiters. -/
private theorem isDelimiter_eq_false {test : CodePoint → Bool}
    {point : CodePoint}
    (rejects : ∀ delimiter ∈ (" ().;:" : Text), test delimiter = false)
    (accepted : test point = true) :
    isDelimiter point = false := by
  rw [isDelimiter, ← Bool.not_eq_true, List.contains_iff_mem]
  intro member
  rw [rejects point member] at accepted
  cases accepted

theorem isWord_cons {first : CodePoint} {rest : Text} :
    isWord (first :: rest) = true ↔
      first.isLetter = true ∧ ∀ point ∈ rest, isWordPart point = true := by
  rw [isWord, Bool.and_eq_true, List.all_eq_true]

private theorem isDelimiter_of_mem_word {word : Text}
    (shape : isWord word = true) :
    ∀ point ∈ word, isDelimiter point = false := by
  cases word with
  | nil => cases shape
  | cons first rest =>
      obtain ⟨letter, parts⟩ := isWord_cons.mp shape
      refine List.forall_mem_cons.mpr ⟨?_, ?_⟩
      · exact isDelimiter_eq_false (by decide) letter
      · exact fun point member =>
          isDelimiter_eq_false (by decide) (parts point member)

theorem yields_of_isWord {word : Text} (shape : isWord word = true) :
    Yields word [.word word] := by
  refine .word ?_ (isDelimiter_of_mem_word shape)
  rintro rfl
  cases shape

theorem isWord_of_isVariable {word : Text} (bindable : isVariable word = true) :
    isWord word = true :=
  (Bool.and_eq_true_iff.mp bindable).1

theorem isWord_of_isName {word : Text} (name : isName word = true) :
    isWord word = true := by
  rcases Bool.or_eq_true_iff.mp name with bound | constant
  · exact isWord_of_isVariable bound
  · have constants :
        ∀ word ∈ (["True", "False", "abs"] : List Text),
          isWord word = true := by
      decide
    exact constants word (List.contains_iff_mem.mp constant)

theorem yields_of_isNumeral {digits : Text}
    (numeral : isNumeral digits = true) :
    Yields digits [.word digits] := by
  simp only [isNumeral, Bool.and_eq_true, Bool.not_eq_true',
    List.isEmpty_eq_false_iff, List.all_eq_true] at numeral
  refine .word numeral.1 fun point member => ?_
  exact isDelimiter_eq_false (by decide) (numeral.2 point member)

theorem isDigit_of_mem_decimal {number : Nat} {point : CodePoint}
    (member : point ∈ Text.decimal number) : point.isDigit = true := by
  obtain ⟨digit, inside, rfl⟩ := List.mem_map.mp member
  have decimal := Nat.isDigit_of_mem_toDigits (by decide) (by decide) inside
  simp only [Char.isDigit, Bool.and_eq_true, decide_eq_true_eq] at decimal
  simp only [CodePoint.isDigit, Bool.and_eq_true, decide_eq_true_eq]
  exact decimal

theorem isNumeral_decimal (number : Nat) :
    isNumeral (Text.decimal number) = true := by
  simp only [isNumeral, Bool.and_eq_true, Bool.not_eq_true',
    List.isEmpty_eq_false_iff, List.all_eq_true]
  refine ⟨?_, fun point member => isDigit_of_mem_decimal member⟩
  simp [Text.decimal]

end InnerSyntax

/-! ## Types -/

open InnerSyntax

def HolType.Legible : HolType → Prop
  | named name => isTypeName name = true
  | word width => 0 ≤ width
  | function argument result => argument.Legible ∧ result.Legible

namespace HolType

theorem isMark_arrow : IsMark " \\<Rightarrow> " [arrowSymbol] := by
  decide

/-- What is read as a type is read so on both sides of an arrow. -/
private theorem readArrow_append {items others : List Phrase}
    {argument result : HolType} (left : readType items = some argument)
    (right : readType others = some result) :
    readArrow (items ++ .word arrowSymbol :: others) =
      some (.function argument result) := by
  have notWord : ("word" : Text) ≠ arrowSymbol := by decide
  unfold readType at left
  split at left
  · next phrase =>
    match phrase, others with
    | _, [] => cases right
    | .parens inner, next :: rest => simp [readArrow, left, right]
    | .word name, .parens inner :: rest => simp [readArrow, left, right]
    | .word name, .word next :: rest => simp [readArrow, left, right]
  · next digits constructor =>
    have shape : constructor = "word" := by
      simp only [wordType?, Option.ite_none_right_eq_some, Bool.and_eq_true]
        at left
      exact of_decide_eq_true left.1.2
    rw [List.cons_append, List.cons_append, List.nil_append, readArrow,
      if_neg (shape ▸ notWord), if_pos rfl, left, right]
    rfl
  · cases left

private theorem yields_of_isTypeName {name : Text}
    (known : isTypeName name = true) :
    Yields name [.word name] := by
  cases name with
  | nil => cases known
  | cons first rest =>
      rcases Bool.or_eq_true_iff.mp known with constant | typeVariable
      · have constants :
            ∀ name ∈ (["bool", "int", "real", "string"] : List Text),
            isWord name = true := by
          decide
        exact yields_of_isWord (constants _ (List.contains_iff_mem.mp constant))
      · obtain ⟨mark, word⟩ := Bool.and_eq_true_iff.mp typeVariable
        have prime : first = '\'' := of_decide_eq_true mark
        refine .word (by simp)
          (List.forall_mem_cons.mpr ⟨?_, isDelimiter_of_mem_word word⟩)
        rw [prime]
        decide

/-- The text of a legible type is read as the type. -/
theorem Legible.yields {type : HolType} (legible : type.Legible) :
    ∃ items, Yields type.text items ∧ readType items = some type := by
  induction type with
  | named name =>
      have known : isTypeName name = true := legible
      refine ⟨[.word name], yields_of_isTypeName known, ?_⟩
      rw [readType, readPhraseType, if_pos known]
  | word width =>
      obtain ⟨number, rfl⟩ := Int.eq_ofNat_of_zero_le legible
      have numeral := isNumeral_decimal number
      have constructor : Yields " word" ([Text.ofString "word"].map .word) :=
        .words (by decide) (by decide)
      refine ⟨_, (yields_of_isNumeral numeral).append
        constructor (.inr (by decide)), ?_⟩
      simp [readType, wordType?, numeral, Text.decimalValue_decimal]
  | function argument result argumentHypothesis resultHypothesis =>
      obtain ⟨left, leftYields, leftRead⟩ := argumentHypothesis legible.1
      obtain ⟨right, rightYields, rightRead⟩ := resultHypothesis legible.2
      have inner := leftYields.around isMark_arrow rightYields
      have outer := inner.parens
      refine ⟨[.parens (left ++ .word arrowSymbol :: right)], ?_, ?_⟩
      · simpa only [text, List.append_assoc, List.map_cons, List.map_nil,
          List.singleton_append]
          using outer
      · exact readArrow_append leftRead rightRead

end HolType

/-! ## Terms -/

namespace HolTerm

/-- Terms of the forms that are read, with words that are read in their
places. -/
inductive Legible : HolTerm → Prop
  | name {identifier : Text} (known : isName identifier = true) :
      Legible (.name identifier)
  | constant {symbol : Text} (known : isName symbol = true) :
      Legible (.constant symbol)
  | numeral {digits : Text} {type : HolType} (decimal : isNumeral digits = true)
      (typed : type.Legible) : Legible (.numeral digits type)
  | prefixed {symbol : Text} {argument : HolTerm}
      (known : prefixes.contains symbol = true) (legible : Legible argument) :
        Legible (.call symbol [argument])
  | apply {function : HolTerm} {identifier : Text} {arguments : List HolTerm}
      (head : function = .name identifier ∨ function = .constant identifier)
      (known : isName identifier = true)
      (legible : ∀ argument ∈ arguments, Legible argument) :
      Legible (.apply function arguments)
  | operation {symbol : Text} {left right : HolTerm}
      (known : infixes.contains symbol = true) (leftLegible : Legible left)
      (rightLegible : Legible right) :
      Legible (.operation symbol left right)
  | conjunction {parts : List HolTerm} (several : 2 ≤ parts.length)
      (legible : ∀ part ∈ parts, Legible part) : Legible (.conjunction parts)
  | conditional {test first second : HolTerm} (testLegible : Legible test)
      (firstLegible : Legible first) (secondLegible : Legible second) :
      Legible (.conditional test first second)
  | letIn {equations : List (Text × HolTerm)} {body : HolTerm}
      (nonempty : equations ≠ [])
      (bindable : ∀ equation ∈ equations, isVariable equation.fst = true)
      (legible : ∀ equation ∈ equations, Legible equation.snd)
      (bodyLegible : Legible body) :
      Legible (.letIn equations body)
  | bound {binder : HolBinder} {names : List (Text × HolType)} {body : HolTerm}
      (nonempty : names ≠ [])
      (bindable : ∀ entry ∈ names, isVariable entry.fst = true ∧
        entry.snd.Legible)
      (bodyLegible : Legible body) : Legible (.bound binder names body)

mutual

/-- The term as it is read. -/
def plain : HolTerm → HolTerm
  | .constant symbol => .name symbol
  | .apply function [] => plain function
  | .apply function (first :: others) =>
    .apply (plain function) (plain first :: plainAll others)
  | .operation symbol left right => .operation symbol (plain left) (plain right)
  | .conjunction parts => plainConjuncts parts
  | .conditional test first second =>
    .conditional (plain test) (plain first) (plain second)
  | .letIn equations body => .letIn (plainEquations equations) (plain body)
  | .bound binder names body => .bound binder names (plain body)
  | term => term

def plainAll : List HolTerm → List HolTerm
  | [] => []
  | first :: others => plain first :: plainAll others

def plainConjuncts : List HolTerm → HolTerm
  | [] => truth true
  | [part] => plain part
  | part :: parts =>
    .operation conjunctionSymbol (plain part) (plainConjuncts parts)

def plainEquations : List (Text × HolTerm) → List (Text × HolTerm)
  | [] => []
  | (identifier, term) :: equations =>
    (identifier, plain term) :: plainEquations equations

end

/-! ### Reading words -/

section Words

variable {word : Text} {rest : List Phrase}

/-- The tokens that tell which form stands between two parentheses. -/
def leads : List Text :=
  ["if", "let", "\\<forall>", "\\<exists>", "\\<lambda>", "\\<not>", "-"]

private theorem not_mem_leads {test : Text → Bool} (accepted : test word = true)
    (rejects : ∀ lead ∈ leads, test lead = false) : word ∉ leads := by
  intro member
  rw [rejects word member] at accepted
  cases accepted

/-- Between parentheses, a word that tells of no other form is a number with its
type or the start of an application. -/
private theorem readInside_of_not_mem_leads (outside : word ∉ leads) :
    readInside (.word word :: rest) =
      if isNumeral word then (readAscription rest).map (.numeral word)
      else if isName word then readApplied (.name word) rest
      else none := by
  simp only [leads, List.mem_cons, List.not_mem_nil, or_false, not_or]
    at outside
  obtain ⟨notIf, notLet, notAll, notExists, notLambda, notNot, notMinus⟩ :=
    outside
  have noBinder : binder? word = none := by
    simp [binder?, HolBinder.symbol, Ne.symm notAll, Ne.symm notExists,
      Ne.symm notLambda]
  have noPrefix : prefixes.contains word = false := by
    simp [prefixes, notNot, notMinus]
  simp only [readInside, notIf, notLet, noBinder, noPrefix, if_false,
    Bool.false_eq_true]
  cases readAscription rest <;> rfl

private theorem isNumeral_of_isName (name : isName word = true) :
    isNumeral word = false := by
  have shape := isWord_of_isName name
  cases word with
  | nil => rfl
  | cons first rest =>
      have letter : first.isLetter = true := (isWord_cons.mp shape).1
      have noDigit : first.isDigit = false := by
        simp only [CodePoint.isLetter, CodePoint.isDigit] at letter ⊢
        grind
      simp [isNumeral, noDigit]

theorem readInside_of_isName (name : isName word = true) :
    readInside (.word word :: rest) = readApplied (.name word) rest := by
  have noNumeral : isNumeral word = false := isNumeral_of_isName name
  have outside : word ∉ leads := not_mem_leads name (by decide)
  rw [readInside_of_not_mem_leads outside, noNumeral, name]
  rfl

theorem readInside_of_isNumeral (numeral : isNumeral word = true) :
    readInside (.word word :: rest) = (readAscription rest).map
      (.numeral word) := by
  have outside : word ∉ leads := not_mem_leads numeral (by decide)
  rw [readInside_of_not_mem_leads outside, if_pos numeral]

/-- What follows a first term does not depend on how the term is written. -/
theorem readInside_of_readTerm {phrase : Phrase} {term : HolTerm}
    (read : readTerm phrase = some term) :
    readInside (phrase :: rest) = readApplied term rest := by
  cases phrase with
  | word token =>
      rw [readTerm, Option.ite_none_right_eq_some] at read
      obtain ⟨name, same⟩ := read
      obtain rfl := Option.some.inj same
      exact readInside_of_isName name
  | parens items =>
      rw [readTerm] at read
      rw [readInside, read]
      rfl

/-- What is read as a term is not taken for an operator. -/
theorem infix?_of_readTerm {phrase : Phrase} {term : HolTerm}
    (read : readTerm phrase = some term) : infix? phrase = none := by
  cases phrase with
  | word token =>
      rw [readTerm, Option.ite_none_right_eq_some] at read
      have noInfix : ∀ symbol ∈ infixes, isName symbol = false := by decide
      rw [infix?, if_neg]
      intro member
      have rejected := noInfix token (List.contains_iff_mem.mp member)
      rw [read.1] at rejected
      cases rejected
  | parens items => rfl

end Words

/-! ### Reading forms -/

/-- The text is read as the term. -/
def Shows (text : Text) (term : HolTerm) : Prop :=
  ∃ phrase, Yields text [phrase] ∧ readTerm phrase = some term

theorem shows_name {word : Text} (name : isName word = true) :
    Shows word (.name word) := by
  refine ⟨.word word, yields_of_isWord (isWord_of_isName name), ?_⟩
  rw [readTerm, if_pos name]

theorem shows_parens {text : Text} {items : List Phrase} {term : HolTerm}
    (yields : Yields text items) (read : readInside items = some term) :
    Shows ("(" ++ text ++ ")") term :=
  ⟨.parens items, yields.parens, read⟩

theorem isLead_if : IsLead "if " ["if"] := by
  decide

theorem isMark_then : IsMark " then " ["then"] := by
  decide

theorem isMark_else : IsMark " else " ["else"] := by
  decide

/-- A conditional is read with its three parts between their marks. -/
theorem shows_conditional {test first second : HolTerm}
    (testShown : Shows test.text test.plain)
    (firstShown : Shows first.text first.plain)
    (secondShown : Shows second.text second.plain) :
    Shows (conditional test first second).text
      (conditional test first second).plain := by
  obtain ⟨testPhrase, testYields, testRead⟩ := testShown
  obtain ⟨firstPhrase, firstYields, firstRead⟩ := firstShown
  obtain ⟨secondPhrase, secondYields, secondRead⟩ := secondShown
  have start : ("(if " : Text) = "(" ++ "if " := by decide
  have inner :=
    ((testYields.after isLead_if).around isMark_then firstYields).around
      isMark_else
    secondYields
  have shown : Shows ("(" ++ _ ++ ")") (conditional test first second).plain :=
    shows_parens inner (by
      simp [readInside, readConditional, testRead, firstRead,
        secondRead, plain])
  simpa only [text, start, List.append_assoc] using shown

/-! ### Applications -/

theorem isLead_blank : IsLead " " [] := by
  decide

theorem argumentsText_apart (left : Text) (arguments : List HolTerm) :
    Apart left (argumentsText arguments) := by
  cases arguments with
  | nil => exact .inr rfl
  | cons first others =>
      have blank : (" " : Text) = [CodePoint.ofChar ' '] := by decide
      right
      rw [argumentsText, blank]
      exact (by decide : isDelimiter (CodePoint.ofChar ' ') = true)

theorem shows_arguments {arguments : List HolTerm}
    (shown : ∀ argument ∈ arguments, Shows argument.text argument.plain) :
    ∃ items, Yields (argumentsText arguments) items ∧
      readTerms items = some (plainAll arguments) := by
  induction arguments with
  | nil => exact ⟨[], .nil, rfl⟩
  | cons first others inductionHypothesis =>
      obtain ⟨phrase, firstYields, firstRead⟩ := shown first (by simp)
      obtain ⟨items, othersYields, othersRead⟩ :=
        inductionHypothesis fun argument member =>
        shown argument (List.mem_cons_of_mem _ member)
      have head := firstYields.after isLead_blank
      refine ⟨_, head.append othersYields (argumentsText_apart _ _), ?_⟩
      simp [readTerms, firstRead, othersRead, plainAll]

theorem readApplied_of_readTerms {function : HolTerm} {items : List Phrase}
    {arguments : List HolTerm} (word : function.plain = function)
    (read : readTerms items = some (plainAll arguments)) :
    readApplied function items = some (apply function arguments).plain := by
  cases items with
  | nil =>
      obtain rfl : arguments = [] := by
        cases arguments with
        | nil => rfl
        | cons _ _ => cases read
      rw [readApplied, plain, word]
  | cons next rest =>
      simp only [readTerms, Option.bind_eq_bind, Option.bind_eq_some_iff]
        at read
      obtain ⟨first, firstRead, others, othersRead, same⟩ := read
      cases arguments with
      | nil => cases same
      | cons argument arguments =>
          obtain ⟨rfl, rfl⟩ := List.cons.inj (Option.some.inj same)
          rw [readApplied, infix?_of_readTerm firstRead, plain, word]
          simp [firstRead, othersRead]

/-- An application is read as one, with all of its arguments. -/
theorem shows_apply {function : HolTerm} {identifier : Text}
    {arguments : List HolTerm}
    (head : function = .name identifier ∨ function = .constant identifier)
    (known : isName identifier = true)
    (shown : ∀ argument ∈ arguments, Shows argument.text argument.plain) :
    Shows (apply function arguments).text (apply function arguments).plain := by
  have functionText : function.text = identifier := by
    rcases head with rfl | rfl <;> rfl
  have functionPlain : function.plain = .name identifier := by
    rcases head with rfl | rfl <;> rfl
  obtain ⟨items, argumentsYield, argumentsRead⟩ := shows_arguments shown
  have inner :=
    (yields_of_isWord (isWord_of_isName known)).append argumentsYield
      (argumentsText_apart _ _)
  have read : readApplied (.name identifier) items =
      some (apply function arguments).plain := by
    have same : (apply function arguments).plain =
        (apply (.name identifier) arguments).plain := by
      cases arguments <;> simp only [plain, functionPlain]
    rw [same]
    exact readApplied_of_readTerms rfl argumentsRead
  have shown : Shows ("(" ++ _ ++ ")") (apply function arguments).plain :=
    shows_parens inner ((readInside_of_isName known).trans read)
  simpa only [text, functionText, List.append_assoc] using shown

theorem shows_prefixed {symbol : Text} {argument : HolTerm}
    (known : prefixes.contains symbol = true)
    (shown : Shows argument.text argument.plain) :
    Shows (call symbol [argument]).text (call symbol [argument]).plain := by
  obtain ⟨phrase, yields, read⟩ := shown
  have lead : ∀ symbol ∈ prefixes, IsLead (symbol ++ " ") [symbol] := by decide
  have member : symbol ∈ prefixes := List.contains_iff_mem.mp known
  have inner := yields.after (lead symbol member)
  have shown : Shows ("(" ++ _ ++ ")") (call symbol [argument]).plain :=
    shows_parens inner (by
      have shape : readInside (.word symbol :: [phrase]) = (do
          return .apply (.name symbol) [← readLast [phrase]]) := by
        rcases (by
          simpa [prefixes] using member : symbol = "\\<not>" ∨
          symbol = "-") with rfl | rfl
        · rfl
        · rfl
      simp [shape, readLast, read, call, plain, plainAll])
  simpa [text, argumentsText, call] using shown

/-! ### Operators -/

theorem shows_operation {symbol : Text} {left right : HolTerm}
    (known : infixes.contains symbol = true)
    (leftShown : Shows left.text left.plain)
    (rightShown : Shows right.text right.plain) :
    Shows (operation symbol left right).text
      (operation symbol left right).plain := by
  obtain ⟨leftPhrase, leftYields, leftRead⟩ := leftShown
  obtain ⟨rightPhrase, rightYields, rightRead⟩ := rightShown
  have mark : ∀ symbol ∈ infixes, IsMark (" " ++ symbol ++ " ") [symbol] := by
    decide
  have member : symbol ∈ infixes := List.contains_iff_mem.mp known
  have inner := leftYields.around (mark symbol member) rightYields
  have shown : Shows ("(" ++ _ ++ ")") (operation symbol left right).plain :=
    shows_parens inner (by
      simp [readInside_of_readTerm leftRead, readApplied, infix?, member,
        readRight, rightRead, plain])
  simpa only [text, List.append_assoc] using shown

theorem isMark_conjunction : IsMark " \\<and> " [conjunctionSymbol] := by
  decide

theorem shows_conjuncts {parts : List HolTerm} (nonempty : parts ≠ [])
    (shown : ∀ part ∈ parts, Shows part.text part.plain) :
    ∃ items, Yields (conjunctsText parts) items ∧
      readRight conjunctionSymbol items = some (plainConjuncts parts) := by
  induction parts with
  | nil => exact absurd rfl nonempty
  | cons first others inductionHypothesis =>
      obtain ⟨phrase, firstYields, firstRead⟩ := shown first (by simp)
      cases others with
      | nil =>
          refine ⟨[phrase], firstYields, ?_⟩
          rw [readRight, firstRead, plainConjuncts]
      | cons second others =>
          obtain ⟨items, othersYields, othersRead⟩ :=
            inductionHypothesis (by simp)
              fun part member => shown part (List.mem_cons_of_mem _ member)
          refine ⟨_, firstYields.around isMark_conjunction othersYields, ?_⟩
          simp [readRight, firstRead, othersRead, plainConjuncts]

/-- A conjunction is read as nested to the right. -/
theorem shows_conjunction {parts : List HolTerm} (several : 2 ≤ parts.length)
    (shown : ∀ part ∈ parts, Shows part.text part.plain) :
    Shows (conjunction parts).text (conjunction parts).plain := by
  match parts with
  | [] | [_] => simp at several
  | first :: second :: others =>
      obtain ⟨phrase, firstYields, firstRead⟩ := shown first (by simp)
      obtain ⟨items, othersYield, othersRead⟩ := shows_conjuncts (by simp)
        fun part member => shown part (List.mem_cons_of_mem _ member)
      have inner := firstYields.around isMark_conjunction othersYield
      have known : conjunctionSymbol ∈ infixes := by decide
      have shown :
          Shows ("(" ++ _ ++ ")")
            (conjunction (first :: second :: others)).plain :=
        shows_parens inner (by
          simp [readInside_of_readTerm firstRead, readApplied, infix?, known,
            othersRead, plain, plainConjuncts])
      exact shown

/-! ### Types in terms -/

theorem isMark_ascription : IsMark "::" [":", ":"] := by
  decide

theorem shows_ascription {word : Text} {type : HolType}
    (yields : Yields word [.word word]) (legible : type.Legible) :
    ∃ items, Yields (word ++ "::" ++ type.text) (.word word :: items) ∧
      readAscription items = some type := by
  obtain ⟨items, typeYields, typeRead⟩ := legible.yields
  refine ⟨.word ":" :: .word ":" :: items,
    yields.around isMark_ascription typeYields, ?_⟩
  simp [readAscription, typeRead]

theorem shows_numeral {digits : Text} {type : HolType}
    (decimal : isNumeral digits = true) (legible : type.Legible) :
    Shows (numeral digits type).text (numeral digits type).plain := by
  obtain ⟨items, yields, read⟩ :=
    shows_ascription (yields_of_isNumeral decimal) legible
  have shown : Shows ("(" ++ _ ++ ")") (numeral digits type).plain :=
    shows_parens yields (by
      rw [readInside_of_isNumeral decimal, read]
      rfl)
  simpa only [text, List.append_assoc] using shown

theorem shows_variable {entry : Text × HolType}
    (bindable : isVariable entry.fst = true) (legible : entry.snd.Legible) :
    ∃ items, Yields (variableText entry) [.parens items] ∧
      readVariable items = some entry := by
  obtain ⟨items, yields, read⟩ :=
    shows_ascription (yields_of_isWord (isWord_of_isVariable bindable)) legible
  refine ⟨.word entry.fst :: items, ?_, ?_⟩
  · have outer := yields.parens
    simpa only [variableText, List.append_assoc] using outer
  · rw [readVariable, if_pos bindable, read]
    rfl

/-! ### Binders -/

theorem isMark_equals : IsMark " = " ["="] := by
  decide

theorem isMark_semicolon : IsMark "; " [";"] := by
  decide

theorem isMark_in : IsMark " in " ["in"] := by
  decide

/-- The equations of a let are read up to its body. -/
theorem shows_equations {equations : List (Text × HolTerm)} {body : HolTerm}
    (nonempty : equations ≠ [])
    (bindable : ∀ equation ∈ equations, isVariable equation.fst = true)
    (shown : ∀ equation ∈ equations, Shows equation.snd.text equation.snd.plain)
    (bodyShown : Shows body.text body.plain) :
    ∃ items, Yields (equationsText equations ++ " in " ++ body.text) items ∧
      readLet items = some (plainEquations equations, body.plain) := by
  induction equations with
  | nil => exact absurd rfl nonempty
  | cons equation others inductionHypothesis =>
      obtain ⟨identifier, term⟩ := equation
      have known : isVariable identifier = true :=
        bindable (identifier, term) (by simp)
      obtain ⟨phrase, yields, read⟩ := shown (identifier, term) (by simp)
      have head :=
        (yields_of_isWord (isWord_of_isVariable known)).around
          isMark_equals yields
      cases others with
      | nil =>
          obtain ⟨bodyPhrase, bodyYields, bodyRead⟩ := bodyShown
          refine ⟨_, head.around isMark_in bodyYields, ?_⟩
          have different : ("in" : Text) ≠ ";" := by decide
          simp [readLet, known, read, different, readLast, bodyRead,
            plainEquations]
      | cons next others =>
          obtain ⟨items, othersYield, othersRead⟩ :=
            inductionHypothesis (by simp)
              (fun equation member => bindable equation
                (List.mem_cons_of_mem _ member))
              (fun equation member => shown equation
                (List.mem_cons_of_mem _ member))
          have shape :
              equationsText ((identifier, term) :: next :: others) ++ " in " ++
                body.text =
              identifier ++ " = " ++ term.text ++ "; " ++
                (equationsText (next :: others) ++ " in " ++ body.text) := by
            simp only [equationsText, List.append_assoc]
          rw [shape]
          refine ⟨_, head.around isMark_semicolon othersYield, ?_⟩
          simp [readLet, known, read, othersRead, plainEquations]

theorem isLead_let : IsLead "let " ["let"] := by
  decide

theorem shows_letIn {equations : List (Text × HolTerm)} {body : HolTerm}
    (nonempty : equations ≠ [])
    (bindable : ∀ equation ∈ equations, isVariable equation.fst = true)
    (shown : ∀ equation ∈ equations, Shows equation.snd.text equation.snd.plain)
    (bodyShown : Shows body.text body.plain) :
    Shows (letIn equations body).text (letIn equations body).plain := by
  obtain ⟨items, yields, read⟩ :=
    shows_equations nonempty bindable shown bodyShown
  have start : ("(let " : Text) = "(" ++ "let " := by decide
  have shown : Shows ("(" ++ _ ++ ")") (letIn equations body).plain :=
    shows_parens (yields.after isLead_let) (by
      have different : ("let" : Text) ≠ "if" := by decide
      simp [readInside, different, read, plain])
  simpa only [text, start, List.append_assoc] using shown

theorem isMark_blank : IsMark " " [] := by
  decide

theorem isMark_stop : IsMark ". " ["."] := by
  decide

theorem shows_names {names : List (Text × HolType)} {body : HolTerm}
    (nonempty : names ≠ [])
    (bindable : ∀ entry ∈ names, isVariable entry.fst = true ∧
      entry.snd.Legible)
    (bodyShown : Shows body.text body.plain) :
    ∃ items, Yields
        (Text.words (names.map variableText) ++ ". " ++ body.text) items ∧
      readBound items = some (names, body.plain) := by
  induction names with
  | nil => exact absurd rfl nonempty
  | cons entry others inductionHypothesis =>
      obtain ⟨known, legible⟩ := bindable entry (by simp)
      obtain ⟨variableItems, variableYields, variableRead⟩ :=
        shows_variable known legible
      cases others with
      | nil =>
          obtain ⟨bodyPhrase, bodyYields, bodyRead⟩ := bodyShown
          have shape :
              Text.words ([entry].map variableText) ++ ". " ++ body.text =
              variableText entry ++ ". " ++ body.text := by
            simp [Text.words, Text.join]
          rw [shape]
          refine ⟨_, variableYields.around isMark_stop bodyYields, ?_⟩
          simp [readBound, variableRead, bodyRead]
      | cons next others =>
          obtain ⟨items, othersYield, othersRead⟩ :=
            inductionHypothesis (by simp)
              (fun entry member => bindable entry
                (List.mem_cons_of_mem _ member))
          have shape :
              Text.words ((entry :: next :: others).map variableText) ++ ". " ++
                body.text =
              variableText entry ++ " " ++
                (Text.words ((next :: others).map variableText) ++ ". " ++
                  body.text) := by
            simp [Text.words, Text.join]
          rw [shape]
          refine ⟨_, variableYields.around isMark_blank othersYield, ?_⟩
          match items with
          | .parens item :: items => simp [readBound, variableRead, othersRead]
          | [] | .word _ :: _ => simp [readBound] at othersRead

/-- The variables of a binder are read up to its body. -/
theorem shows_bound {binder : HolBinder} {names : List (Text × HolType)}
    {body : HolTerm} (nonempty : names ≠ [])
    (bindable : ∀ entry ∈ names, isVariable entry.fst = true ∧
      entry.snd.Legible)
    (bodyShown : Shows body.text body.plain) :
    Shows (bound binder names body).text (bound binder names body).plain := by
  obtain ⟨items, yields, read⟩ := shows_names nonempty bindable bodyShown
  have symbol : tokens binder.symbol = [binder.symbol] := by
    cases binder <;> decide
  have symbolPlain : ∀ word ∈ [binder.symbol], word ≠ "(" ∧ word ≠ ")" := by
    cases binder <;> decide
  have apart :
      Apart binder.symbol
        (Text.words (names.map variableText) ++ ". " ++ body.text) := by
    right
    have opening : ("(" : Text) = [CodePoint.ofChar '('] := by decide
    have delimiter : isDelimiter (CodePoint.ofChar '(') = true := by decide
    match names with
    | [] => exact absurd rfl nonempty
    | [entry] | entry :: _ :: _ =>
        simp [Text.words, Text.join, variableText, opening, delimiter]
  have inner := (Yields.words symbol symbolPlain).append yields apart
  have shown : Shows ("(" ++ _ ++ ")") (bound binder names body).plain :=
    shows_parens inner (by
      have notIf : binder.symbol ≠ "if" := by cases binder <;> decide
      have notLet : binder.symbol ≠ "let" := by cases binder <;> decide
      have known : binder? binder.symbol = some binder := by
        cases binder <;> decide
      simp [readInside, notIf, notLet, known, read, plain])
  simpa only [text, List.append_assoc] using shown

/-- The text of a legible term is read as the term. -/
theorem Legible.shows {term : HolTerm} (legible : term.Legible) :
    Shows term.text term.plain := by
  induction legible with
  | name known | constant known => exact shows_name known
  | numeral decimal typed => exact shows_numeral decimal typed
  | prefixed known _ argumentShown => exact shows_prefixed known argumentShown
  | apply head known _ shown => exact shows_apply head known shown
  | operation known _ _ leftShown rightShown =>
    exact shows_operation known leftShown rightShown
  | conjunction several _ shown => exact shows_conjunction several shown
  | conditional _ _ _ testShown firstShown secondShown =>
      exact shows_conditional testShown firstShown secondShown
  | letIn nonempty bindable _ _ shown bodyShown =>
      exact shows_letIn nonempty bindable shown bodyShown
  | bound nonempty bindable _ bodyShown =>
    exact shows_bound nonempty bindable bodyShown

theorem Legible.read_text {term : HolTerm} (legible : term.Legible) :
    read term.text = some term.plain := by
  obtain ⟨phrase, yields, phraseRead⟩ := legible.shows
  have whole := yields [] [] []
  rw [List.append_nil, List.nil_append, phrases, if_pos List.isEmpty_nil]
    at whole
  rw [InnerSyntax.read, whole]
  exact phraseRead

end HolTerm

end ModelAudit
