import ModelAudit.Proofs.LexemePatterns
import ModelAudit.Proofs.TokenPlaces

/-!
# How a text is cut into tokens

The tokens of a text stand one after the other at their offsets, with nothing
but comments and white space around them, up to the end of the text or up to the
first place where no lexeme begins. Lines and columns are updated lexeme by
lexeme, and agree with the line feeds of the whole text before the offset.
-/

namespace ModelAudit

/-! ## Lines and columns -/

/-- The line counts the line feeds before the offset, and the column counts from
the last of them, or from the start of the text. -/
structure Position.Counts (position : Position) (text : Text) : Prop where
  line : position.line = (text.take position.offset).count
      (CodePoint.ofChar '\n') + 1
  column :
    (∃ feed < position.offset, text[feed]? = some (CodePoint.ofChar '\n') ∧
      (∀ place, feed < place → place < position.offset →
        text[place]? ≠ some (CodePoint.ofChar '\n')) ∧
      position.column = position.offset - feed) ∨
    ((∀ place < position.offset, text[place]? ≠ some (CodePoint.ofChar '\n')) ∧
      position.column = position.offset + 1)

namespace Position

theorem exists_last_of_mem {point : CodePoint} {text : Text}
    (member : point ∈ text) :
    ∃ earlier later, text = earlier ++ point :: later ∧ point ∉ later := by
  obtain ⟨later, earlier, split, absent⟩ :=
    List.eq_append_cons_of_mem (List.mem_reverse.mpr member)
  refine ⟨earlier.reverse, later.reverse, ?_, List.mem_reverse.not.mpr absent⟩
  rw [← List.reverse_reverse text, split, List.reverse_append,
    List.reverse_cons, List.append_assoc]
  rfl

theorem column_behind_of_not_mem {later : Text}
    (absent : CodePoint.ofChar '\n' ∉ later) :
    (behind later).column = later.length + 1 ∧ ∀ earlier : Text,
      (behind (earlier ++ CodePoint.ofChar '\n' :: later)).column =
        later.length + 1 := by
  have plain :
      ∀ point ∈ later.reverse, decide (point ≠ CodePoint.ofChar '\n') =
        true := by
    intro point member
    refine decide_eq_true ?_
    rintro rfl
    exact absent (List.mem_reverse.mp member)
  constructor
  · rw [behind, List.takeWhile_eq_self_iff.mpr plain, List.length_reverse]
  · intro earlier
    rw [behind, List.reverse_append, List.reverse_cons, List.append_assoc,
      List.takeWhile_append_of_pos plain]
    simp

/-- The position behind a part of a text counts its lines and columns. -/
theorem counts_behind (passed rest : Text) :
    (behind passed).Counts (passed ++ rest) := by
  have offset : (behind passed).offset = passed.length := rfl
  refine ⟨by rw [offset, List.take_left]; rfl, ?_⟩
  rw [offset]
  by_cases member : CodePoint.ofChar '\n' ∈ passed
  · left
    obtain ⟨earlier, later, rfl, absent⟩ := exists_last_of_mem member
    refine ⟨earlier.length, by simp, by simp, ?_, ?_⟩
    · intro place after inside found
      obtain ⟨skipped, rfl⟩ :
        ∃ skipped, place = earlier.length + (skipped + 1) :=
        ⟨place - earlier.length - 1, by omega⟩
      rw [List.getElem?_append_left inside,
        List.getElem?_append_right (Nat.le_add_right _ _),
        Nat.add_sub_cancel_left, List.getElem?_cons_succ] at found
      exact absent (List.mem_of_getElem? found)
    · rw [(column_behind_of_not_mem absent).2 earlier, List.length_append,
        List.length_cons]
      omega
  · right
    refine ⟨fun place inside found => ?_, (column_behind_of_not_mem member).1⟩
    rw [List.getElem?_append_left inside] at found
    exact member (List.mem_of_getElem? found)

end Position

/-! ## Layout -/

namespace Lexer

/-- From one offset to the other the text holds comments and white space
only. -/
inductive Gap (text : Text) : Nat → Nat → Prop
  | nil {offset : Nat} : Gap text offset offset
  | cons {start stop : Nat} {kind : LexemeClass} {written : Text} :
      kind = .comment ∨ kind = .blank → Begins kind written (text.drop start) →
      Gap text (start + written.length) stop → Gap text start stop

/-- From one offset to the other the text holds the tokens at their offsets, one
after the other, and gaps around them. -/
inductive LaidOut (text : Text) : Nat → List Token → Nat → Prop
  | nil {start stop : Nat} : Gap text start stop → LaidOut text start [] stop
  | cons {start stop : Nat} {token : Token} {tokens : List Token}
      {kind : LexemeClass} {written : Text} :
        Gap text start token.position.offset →
      Begins kind written (text.drop token.position.offset) →
      lexemeOf kind written = .ok (some token.lexeme) →
      token.position.Counts text →
      LaidOut text (token.position.offset + written.length) tokens stop →
      LaidOut text start (token :: tokens) stop

/-- What ends the tokens at an offset: the end of the text, a code point at
which no lexeme begins, or a string literal with an escape that stands for
nothing. -/
inductive EndsAt (text : Text) (stop : Nat) : Option ReadFault → Prop
  | finished : stop = text.length → EndsAt text stop none
  | unexpected {point : CodePoint} {position : Position} :
      position.offset = stop →
      position.Counts text → text[stop]? = some point →
      Unmatched (text.drop stop) →
      EndsAt text stop (some ⟨.unexpected point, position.place⟩)
  | escape {cause : EscapeCause} {position : Position} {written : Text} :
      position.offset = stop →
      position.Counts text → Begins .string written (text.drop stop) →
      lexemeOf .string written = .error cause →
      EndsAt text stop
        (some ⟨.escape cause, ⟨position.line, position.column, none⟩⟩)

variable {text written : Text} {start stop : Nat} {kind : LexemeClass}
  {tokens : List Token}

theorem Gap.le (gap : Gap text start stop) : start ≤ stop := by
  induction gap with
  | nil => exact Nat.le_refl _
  | cons _ _ _ inductionHypothesis =>
    exact Nat.le_trans (Nat.le_add_right _ _) inductionHypothesis

/-- A comment or white space goes on the first gap. -/
theorem LaidOut.skip (isGap : kind = .comment ∨ kind = .blank)
    (begins : Begins kind written (text.drop start))
    (laidOut : LaidOut text (start + written.length) tokens stop) :
    LaidOut text start tokens stop := by
  cases laidOut with
  | nil gap => exact .nil (.cons isGap begins gap)
  | cons gap here lexed counts later =>
    exact .cons (.cons isGap begins gap) here lexed counts later

/-- Tokens come in the order of their offsets. -/
theorem LaidOut.offsets (laidOut : LaidOut text start tokens stop) :
    (∀ token ∈ tokens, start ≤ token.position.offset) ∧
      tokens.Pairwise fun earlier later =>
        earlier.position.offset < later.position.offset := by
  induction laidOut with
  | nil _ => exact ⟨fun _ member => absurd member List.not_mem_nil, .nil⟩
  | @cons start stop token tokens kind written gap begins _ _ _
      inductionHypothesis =>
      obtain ⟨behind, increasing⟩ := inductionHypothesis
      have positive := List.length_pos_iff.mpr begins.matched.ne_nil
      have before := gap.le
      refine ⟨List.forall_mem_cons.mpr ⟨before, fun later member => ?_⟩,
        .cons (fun later member => ?_) increasing⟩
      · have := behind later member
        omega
      · have := behind later member
        omega

theorem kind_of_error {cause : EscapeCause}
    (failed : lexemeOf kind written = .error cause) :
    kind = .string := by
  cases kind <;> first | rfl | cases failed

/-- By induction on what is left of the text: each turn takes a token or a
gap. -/
theorem scanFrom_laidOut (passed rest : Text) :
    ∃ stop,
      LaidOut (passed ++ rest) passed.length
          (scanFrom (.behind passed) rest).tokens stop ∧
        EndsAt (passed ++ rest) stop
          (scanFrom (.behind passed) rest).fault := by
  cases rest with
  | nil =>
      rw [scanFrom, List.append_nil]
      exact ⟨passed.length, .nil .nil, .finished rfl⟩
  | cons first rest =>
      have here : (passed ++ first :: rest).drop passed.length =
          first :: rest := List.drop_left
      have counts := Position.counts_behind passed (first :: rest)
      rw [scanFrom]
      split
      · next unrecognized =>
        refine ⟨passed.length, .nil .nil, .unexpected rfl counts (by simp) ?_⟩
        rw [here]
        exact unmatched_of_recognize unrecognized
      · next kind count recognized =>
        have begins := begins_of_recognize recognized
        rw [← here] at begins
        dsimp only
        split
        · next cause failed =>
          obtain rfl := kind_of_error failed
          exact ⟨passed.length, .nil .nil, .escape rfl counts begins failed⟩
        · next lexeme lexed =>
          have whole : passed ++ first :: rest =
              (passed ++ first :: rest.take count) ++ rest.drop count := by
            rw [List.append_assoc, List.cons_append, List.take_append_drop]
          obtain ⟨stop, laidOut, ends⟩ :=
            scanFrom_laidOut (passed ++ first :: rest.take count)
              (rest.drop count)
          rw [← whole, List.length_append] at laidOut
          rw [← whole] at ends
          rw [Position.after_behind, fault_prepend]
          refine ⟨stop, ?_, ends⟩
          cases lexeme with
          | none => exact laidOut.skip (kind_of_none lexed).symm begins
          | some lexeme => exact .cons .nil begins lexed counts laidOut
termination_by rest.length
decreasing_by simp only [List.length_drop, List.length_cons]; omega

/-- Whatever a text is, its tokens stand one after the other, each at its offset
and with the line and the column of the offset, and with nothing but comments
and white space around them. They go up to the end of the text or up to a fault,
and a code point is unexpected only where no pattern fits. -/
theorem scan_partitions (text : Text) :
    ∃ stop, LaidOut text 0 (scan text).tokens stop ∧
      EndsAt text stop (scan text).fault ∧
      (scan text).tokens.Pairwise fun earlier later =>
        earlier.position.offset < later.position.offset := by
  obtain ⟨stop, laidOut, ends⟩ := scanFrom_laidOut [] text
  exact ⟨stop, laidOut, ends, laidOut.offsets.2⟩

/-- After a comment, a symbol between bars that goes on in the next line. -/
example : (scan "; x\n|a\nb| c").tokens.map Token.position =
    [⟨2, 1, 4⟩, ⟨3, 4, 10⟩] := by
  decide +kernel

end Lexer

end ModelAudit
