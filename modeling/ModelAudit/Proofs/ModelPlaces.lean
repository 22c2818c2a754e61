import ModelAudit.Proofs.BlamedCommands
import ModelAudit.Proofs.SolverLayout

/-!
# Places in a solver's output

Positions in a model are counted in the text that is left of an output when its
wrapper has been removed. They are positions in the output only if nothing was
removed in front. What a fault blames always stands in the output; it is as far
behind the reported offset as code points were removed.
-/

namespace ModelAudit

namespace SolverOutput

/-! ## What is removed in front -/

/-- The part stands in the text, behind so many code points. -/
def StandsBehind (text : Text) (count : Nat) (part : Text) : Prop :=
  ∃ front back, text = front ++ part ++ back ∧ front.length = count

section StandsBehind

variable {text middle part : Text} {count more : Nat}

theorem StandsBehind.trans (outer : StandsBehind text count middle)
    (inner : StandsBehind middle more part) :
    StandsBehind text (count + more) part := by
  obtain ⟨front, back, rfl, rfl⟩ := outer
  obtain ⟨innerFront, innerBack, rfl, rfl⟩ := inner
  exact ⟨front ++ innerFront, innerBack ++ back,
    by simp only [List.append_assoc], List.length_append⟩

theorem standsBehind_refl (text : Text) : StandsBehind text 0 text :=
  ⟨[], [], by rw [List.append_nil, List.nil_append], rfl⟩

theorem StandsBehind.initial (outer : StandsBehind text count middle)
    (initial : part <+: middle) :
    StandsBehind text count part := by
  obtain ⟨front, back, rfl, rfl⟩ := outer
  obtain ⟨rest, rfl⟩ := initial
  exact ⟨front, rest ++ back, by simp only [List.append_assoc], rfl⟩

theorem standsBehind_drop (inside : count ≤ text.length) :
    StandsBehind text count (text.drop count) :=
  ⟨text.take count, [], by rw [List.append_nil, List.take_append_drop],
    List.length_take_of_le inside⟩

/-- The white space at the start of a text. -/
def leadingBlanks (text : Text) : Nat :=
  (text.takeWhile CodePoint.isBlank).length

theorem standsBehind_strip (text : Text) :
    StandsBehind text (leadingBlanks text) text.strip := by
  have left : StandsBehind text (leadingBlanks text) text.stripLeft :=
    ⟨text.takeWhile CodePoint.isBlank, [],
      by rw [List.append_nil, Text.stripLeft, List.takeWhile_append_dropWhile],
      rfl⟩
  exact left.initial (Lexer.stripRight_initial _)

theorem StandsBehind.getElem? {offset : Nat} {point : CodePoint}
    (stands : StandsBehind text count part)
    (found : part[offset]? = some point) :
    text[count + offset]? = some point := by
  obtain ⟨front, back, rfl, rfl⟩ := stands
  have inside : offset < part.length := (List.getElem?_eq_some_iff.mp found).1
  rw [List.append_assoc, List.getElem?_append_right (Nat.le_add_right _ _),
    Nat.add_sub_cancel_left, List.getElem?_append_left inside, found]

theorem StandsBehind.writtenAt {offset : Nat} {lexeme : Lexeme}
    (stands : StandsBehind text count part)
    (written : Lexer.WrittenAt part offset lexeme) :
    Lexer.WrittenAt text (count + offset) lexeme := by
  obtain ⟨front, back, rfl, rfl⟩ := stands
  exact written.enclose front back

end StandsBehind

/-- How much is removed in front with the parentheses around a model. -/
def removedFromList (model : Text) : Nat :=
  let inner := (model.drop 1).dropLast
  let stripped := Text.strip inner
  if model.endsWith ")" &&
    (stripped.startsWith "(" || stripped.startsWithWord "model") then
    1 + leadingBlanks inner
  else 0

/-- How much is removed in front with the word `model`. -/
def removedWithWord (model : Text) : Nat :=
  if model.startsWithWord "model" then 5 + leadingBlanks (model.drop 5) else 0

/-- How many code points of an output stand before the text of the model. -/
def removed (output : Text) : Nat :=
  let model := output.strip
  leadingBlanks output +
    if startsWithAnsweredList model then
      let list := Text.strip (model.drop 3)
      3 + leadingBlanks (model.drop 3) + removedFromList list + removedWithWord
        (unwrapList list)
    else removedWithWord model

theorem length_le_of_startsWith {text pattern : Text}
    (starts : text.startsWith pattern = true) :
    pattern.length ≤ text.length :=
  (List.isPrefixOf_iff_prefix.mp starts).length_le

/-- Removing the parentheses around a model leaves a part that stands in the
text. -/
theorem standsBehind_unwrapList (model : Text) :
    StandsBehind model (removedFromList model) (unwrapList model) := by
  rw [unwrapList, removedFromList]
  split
  · next wrapped =>
    rw [Bool.and_eq_true] at wrapped
    have nonempty : 1 ≤ model.length :=
      (List.isSuffixOf_iff_suffix.mp wrapped.1).length_le
    exact ((standsBehind_drop nonempty).initial (List.dropLast_prefix _)).trans
      (standsBehind_strip _)
  · exact standsBehind_refl model

theorem standsBehind_dropModelWord (model : Text) :
    StandsBehind model (removedWithWord model) (dropModelWord model) := by
  rw [dropModelWord, removedWithWord]
  split
  · next isWord =>
    rw [Text.startsWithWord, Bool.and_eq_true] at isWord
    exact (standsBehind_drop (length_le_of_startsWith isWord.1)).trans
      (standsBehind_strip _)
  · exact standsBehind_refl model

/-- What is left of an output stands in it, behind what is removed in front. -/
theorem standsBehind_modelText {output text : Text}
    (isText : modelText output = .ok text) :
    StandsBehind output (removed output) text := by
  unfold modelText at isText
  dsimp only at isText
  split at isText
  · cases isText
  · split at isText
    · cases isText
    · obtain rfl := Except.ok.inj isText
      rw [removed]
      dsimp only
      refine (standsBehind_strip output).trans ?_
      split
      · next answered =>
        rw [startsWithAnsweredList, Bool.and_eq_true] at answered
        have inside : 3 ≤ output.strip.length :=
          length_le_of_startsWith answered.1
        exact (((standsBehind_drop inside).trans (standsBehind_strip _)).trans
          (standsBehind_unwrapList _)).trans (standsBehind_dropModelWord _)
      · exact standsBehind_dropModelWord _

/-- The output opens neither with white space, nor with an answer before a list,
nor with the word `model`. -/
structure OpensBare (output : Text) : Prop where
  solid : ∀ point ∈ output.head?, point.isBlank = false
  unanswered : startsWithAnsweredList output.strip = false
  headless : output.strip.startsWithWord "model" = false

theorem leadingBlanks_eq_zero_iff {text : Text} :
    leadingBlanks text = 0 ↔ ∀ point ∈ text.head?, point.isBlank = false := by
  cases text with
  | nil => simp [leadingBlanks]
  | cons first rest => simp [leadingBlanks, List.takeWhile_cons]

/-- Nothing is removed in front of an output that opens bare, and only there. -/
theorem removed_eq_zero_iff (output : Text) : removed output = 0 ↔
    OpensBare output := by
  rw [removed]
  dsimp only
  rw [Nat.add_eq_zero_iff, leadingBlanks_eq_zero_iff]
  constructor
  · rintro ⟨solid, nothing⟩
    split at nothing
    · omega
    · next unanswered =>
      refine ⟨solid, by simpa using unanswered, ?_⟩
      rw [removedWithWord] at nothing
      split at nothing
      · omega
      · next headless => simpa using headless
  · rintro ⟨solid, unanswered, headless⟩
    rw [unanswered, if_neg Bool.false_ne_true, removedWithWord, headless]
    exact ⟨solid, rfl⟩

end SolverOutput

namespace Session

open SolverOutput Lexer

theorem closedUnderItems_partOf (expressions : List SExpr) :
    ClosedUnderItems fun part : SExpr =>
      ∃ expression ∈ expressions, part.PartOf expression := by
  rintro items position ⟨expression, member, within⟩ part inside
  refine ⟨expression, member, ?_⟩
  clear member
  induction within with
  | whole => exact .item inside .whole
  | item listed _ inductionHypothesis => exact .item listed inductionHypothesis

/-- Each command of a model is a part of some expression of the output. -/
theorem mem_unwrapModel {expressions : List SExpr} {command : SExpr}
    (member : command ∈ unwrapModel expressions) :
    ∃ expression ∈ expressions, command.PartOf expression := by
  unfold unwrapModel at member
  split at member
  · next items position =>
    split at member
    · exact ⟨_, List.mem_singleton_self _,
        .item (List.mem_of_mem_drop member) .whole⟩
    split at member
    · exact ⟨_, List.mem_singleton_self _, .item member .whole⟩
    · exact ⟨command, member, .whole⟩
  · exact ⟨command, member, .whole⟩

/-- What the fault blames stands in the output at the offset: a part of the
expressions in the text, or a single code point where the text has no
expressions. -/
inductive PointsAt (output text : Text) (place : Place) (offset : Nat) :
    Fault → Prop
  | expression {fault : Fault} {expressions : List SExpr}
      {expression part : SExpr} :
      readExpressions text = .ok expressions → expression ∈ expressions →
      part.PartOf expression → part.place = place → fault.Suits part →
      WrittenAt output offset part.opening →
      PointsAt output text place offset fault
  | unexpected {point : CodePoint} : output[offset]? = some point →
      PointsAt output text place offset
        (.malformed (.reading (.unexpected point)) place)
  | unbalanced : output[offset]? = some (CodePoint.ofChar ')') →
      PointsAt output text place offset
        (.malformed (.reading .unbalanced) place)
  | unclosed : output[offset]? = some (CodePoint.ofChar '(') →
      PointsAt output text place offset (.malformed (.reading .unclosed) place)

variable {session : Session} {output text : Text} {fault : Fault}
  {place : Place} {offset : Nat}

/-- A fault gives the place of what it blames, counted in the text that is left
of the output. -/
theorem pointsAt_of_failed (isText : modelText output = .ok text)
    (failed : (session.readModel output).fst = .error fault)
    (placed : fault.place? = some place)
    (known : place.offset = some offset) :
    place = (Position.ofOffset text offset).place ∧ offset < text.length ∧
      PointsAt output text place (removed output + offset) fault := by
  have stands := standsBehind_modelText isText
  unfold readModel at failed
  split at failed
  · rw [isText] at failed
    dsimp only at failed
    split at failed
    · next readFault unread =>
      obtain rfl := Except.error.inj failed
      obtain rfl : readFault.place = place := Option.some.inj placed
      have sameOffset {other : Nat} {point : CodePoint}
          (found : text[other]? = some point)
          (same : (Position.ofOffset text other).offset = offset) :
          other = offset ∧ offset < text.length := by
        have inside : other < text.length :=
          (List.getElem?_eq_some_iff.mp found).1
        rw [Position.offset_ofOffset (Nat.le_of_lt inside)] at same
        exact ⟨same, same ▸ inside⟩
      cases standsIn_of_readFault unread with
      | escape => cases known
      | unexpected found | unbalanced found | unclosed found =>
          obtain ⟨rfl, inside⟩ := sameOffset found (Option.some.inj known)
          refine ⟨rfl, inside, ?_⟩
          first
            | exact .unexpected (stands.getElem? found)
            | exact .unbalanced (stands.getElem? found)
            | exact .unclosed (stands.getElem? found)
    · next expressions read =>
      have blames :
          Blames _ (session.readCommands (unwrapModel expressions)).fst :=
        readCommands_blames (closedUnderItems_partOf expressions)
          (fun _ member => mem_unwrapModel member) session
      obtain ⟨part, ⟨expression, member, within⟩, rfl, suits⟩ :=
        blames fault failed place placed
      obtain rfl : part.position.offset = offset := Option.some.inj known
      obtain ⟨isAt, written⟩ := standsIn_of_read read member within
      refine ⟨?_, written.lt_length, .expression read member within rfl suits
        (stands.writtenAt written)⟩
      rw [← isAt, SExpr.place]
  · obtain rfl := Except.error.inj failed
    cases placed

/-- A fault that names an offset blames what stands in the output that much
behind everything that is removed in front. The place is the one in the output
if the output opens bare, and only then. -/
theorem readModel_place (failed : (session.readModel output).fst = .error fault)
    (placed : fault.place? = some place) (known : place.offset = some offset) :
    ∃ text, modelText output = .ok text ∧
      place = (Position.ofOffset text offset).place ∧
      removed output + offset < output.length ∧
      PointsAt output text place (removed output + offset) fault ∧
      (place = (Position.ofOffset output (removed output + offset)).place ↔
        OpensBare output) ∧
      (removed output = 0 ↔ OpensBare output) := by
  cases isText : modelText output with
  | error cause =>
      unfold readModel at failed
      rw [isText] at failed
      split at failed
      · obtain rfl := Except.error.inj failed
        obtain rfl : Place.unknown = place := Option.some.inj placed
        cases known
      · obtain rfl := Except.error.inj failed
        cases placed
  | ok text =>
      obtain ⟨isPlace, inside, points⟩ :=
        pointsAt_of_failed isText failed placed known
      obtain ⟨front, back, whole, isRemoved⟩ := standsBehind_modelText isText
      have insideOutput : removed output + offset < output.length := by
        have lengths := congrArg List.length whole
        rw [List.length_append, List.length_append] at lengths
        omega
      refine ⟨text, rfl, isPlace, insideOutput, points, ?_,
        removed_eq_zero_iff output⟩
      rw [← removed_eq_zero_iff]
      constructor
      · intro same
        rw [same] at known
        have sameOffset :
            (Position.ofOffset output (removed output + offset)).offset =
              offset :=
          Option.some.inj known
        rw [Position.offset_ofOffset (Nat.le_of_lt insideOutput)] at sameOffset
        omega
      · intro nothing
        obtain rfl : front = [] :=
          List.length_eq_zero_iff.mp (isRemoved.trans nothing)
        have sameFront : output.take offset = text.take offset := by
          rw [whole, List.nil_append,
            List.take_append_of_le_length (Nat.le_of_lt inside)]
        rw [isPlace, nothing, Nat.zero_add, Position.ofOffset,
          Position.ofOffset, sameFront]

/-! ## A line feed before the model -/

/-- The place of the fault that a computation ends with. -/
def faultPlace? {Value : Type} : Except Fault Value → Option Place
  | .error fault => fault.place?
  | .ok _ => none

theorem exists_of_faultPlace? {Value : Type} {computed : Except Fault Value}
    (found : faultPlace? computed = some place) :
    ∃ fault, computed = .error fault ∧ fault.place? = some place := by
  cases computed with
  | error fault => exact ⟨fault, rfl, found⟩
  | ok value => cases found

/-- Behind a line feed, a symbol that is not declared is reported one line above
its place and one code point before it. -/
theorem undeclaredBody_misplaced :
    ∃ fault,
      (declaredConstant.readModel "\n(define-fun x () Int y)").fst =
        .error fault ∧
      fault.place? = some ⟨1, 22, some 21⟩ ∧
      removed "\n(define-fun x () Int y)" = 1 ∧
      Position.ofOffset "\n(define-fun x () Int y)" 22 = ⟨2, 22, 22⟩ ∧
      ¬OpensBare "\n(define-fun x () Int y)" ∧
      ∃ text, modelText "\n(define-fun x () Int y)" = .ok text ∧
        PointsAt "\n(define-fun x () Int y)" text
          ⟨1, 22, some 21⟩ 22 fault := by
  obtain ⟨fault, failed, placed⟩ : ∃ fault,
      (declaredConstant.readModel "\n(define-fun x () Int y)").fst =
        .error fault ∧
        fault.place? = some ⟨1, 22, some 21⟩ :=
    exists_of_faultPlace? (by decide +kernel)
  have one : removed "\n(define-fun x () Int y)" = 1 := by decide +kernel
  obtain ⟨text, isText, _, _, points, _, bare⟩ :=
    readModel_place failed placed rfl
  rw [one] at points bare
  exact ⟨fault, failed, placed, one, by decide +kernel, mt bare.mpr (by decide),
    text, isText, points⟩

end Session

end ModelAudit
