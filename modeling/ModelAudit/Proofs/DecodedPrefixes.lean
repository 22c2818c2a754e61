import Mathlib.Logic.Relation
import ModelAudit.Proofs.DigitValues
import ModelAudit.Proofs.Outcome
import ModelAudit.SExpr.Escape

/-!
# Texts that are decoded up to a place

Escapes are decoded in turns. A turn takes one code point or one escape from the
start of what is left of a text. It looks for digits and for a closing brace in
all that is left, but a turn that succeeds does not depend on what stands behind
the escape. So a text that can be decoded is decoded in the same way in front of
any other text, and then that text is decoded as if it stood alone.
-/

namespace ModelAudit

open Relation

/-- Takes the start of a text for a code point, and leaves the rest. -/
abbrev EscapeReader := Text → Except EscapeCause (CodePoint × Text)

namespace EscapeReader

/-! ## One turn -/

def given (point : CodePoint) : EscapeReader :=
  fun text => .ok (point, text)

/-- Goes on by the next code point. -/
def next (missing : EscapeCause) (continuation : CodePoint → EscapeReader) :
    EscapeReader
  | [] => .error missing
  | first :: rest => continuation first rest

def digits (before : Text) (count : Nat) : EscapeReader := fun text =>
  (Text.pointOfDigits (before.length + count) (before.length + count)
    (before ++ text.take count)).map fun point => (point, text.drop count)

/-- Digits up to a closing brace. -/
def braced : EscapeReader := fun text =>
  let inside := text.takeWhile fun point => !Text.isClosingBrace point
  if inside.length = text.length then .error .unterminated
  else (Text.pointOfDigits 1 5 inside).map fun point =>
    (point, text.drop (inside.length + 1))

/-- An escape behind its backslash. -/
def escape : EscapeReader :=
  next .atEnd fun kind =>
    if kind = 'u' then
      next (.digits []) fun first =>
        if first = '\x7b' then braced else digits [first] 3
    else if kind = 'x' then digits [] 2
    else given kind

/-- A code point that stands for itself, or an escape. -/
def turn (first : CodePoint) : EscapeReader :=
  if first = '\\' then escape else given first

/-! ## Steady readers -/

/-- The reader takes what it takes whatever follows. It leaves an end of the
text, and it never finds a number out of range. -/
structure Steady (reader : EscapeReader) : Prop where
  append : ∀ {text later : Text} {point : CodePoint},
      reader text = .ok (point, later) →
    ∀ more, reader (text ++ more) = .ok (point, later ++ more)
  suffix : ∀ {text later : Text} {point : CodePoint},
      reader text = .ok (point, later) →
    later <:+ text
  inRange : ∀ text found, reader text ≠ .error (.outOfRange found)

theorem steady_given (point : CodePoint) : Steady (given point) where
  append taken more := by
    cases taken
    rfl
  suffix taken := by
    cases taken
    exact List.suffix_rfl
  inRange _ _ := by
    intro same
    cases same

/-- A reader that takes one more point and goes on as a steady reader is
steady. -/
theorem steady_next {missing : EscapeCause}
    {continuation : CodePoint → EscapeReader}
    (other : ∀ found, missing ≠ .outOfRange found)
    (steady : ∀ first, Steady (continuation first)) :
    Steady (next missing continuation) where
  append {text _ _} taken more := by
    cases text with
    | nil => cases taken
    | cons first rest => exact (steady first).append taken more
  suffix {text _ _} taken := by
    cases text with
    | nil => cases taken
    | cons first rest =>
      exact ((steady first).suffix taken).trans (List.suffix_cons first rest)
  inRange text found := by
    cases text with
    | nil => exact fun same => other found (Except.error.inj same)
    | cons first rest => exact (steady first).inRange rest found

section Numbers

variable {least most : Nat} {inside left later : Text} {point : CodePoint}

theorem length_of_pointOfDigits
    (read : Text.pointOfDigits least most inside = .ok point) :
    least ≤ inside.length ∧ inside.length ≤ most := by
  rw [Text.pointOfDigits] at read
  split at read
  · next conditions =>
    simp only [Bool.and_eq_true, decide_eq_true_eq] at conditions
    exact conditions.1
  · cases read

theorem pointOfDigits_of_map
    (taken : ((Text.pointOfDigits least most inside).map fun point =>
      (point, left)) =
      .ok (point, later)) :
    Text.pointOfDigits least most inside = .ok point ∧ later = left := by
  rcases Outcome.map_cases taken with ⟨_, _, failed⟩ | ⟨value, read, same⟩
  · cases failed
  · obtain ⟨rfl, rfl⟩ := Prod.mk.inj (Except.ok.inj same)
    exact ⟨read, rfl⟩

/-- Five digits never denote a number beyond the last code point. -/
theorem map_pointOfDigits_inRange (few : most ≤ 5) (found : Text) :
    ((Text.pointOfDigits least most inside).map fun point => (point, left)) ≠
      .error (.outOfRange found) := by
  rw [Text.pointOfDigits]
  split
  · next conditions =>
    simp only [Bool.and_eq_true, decide_eq_true_eq] at conditions
    have bound :=
      Text.baseValue_lt fun digit (_ : digit ∈ inside) => digit.hexValue?_lt
    have short : 16 ^ inside.length ≤ 16 ^ 5 :=
      Nat.pow_le_pow_right (by decide) (by omega)
    have inRange : Text.baseValue 16 inside < 0x110000 := by omega
    rw [CodePoint.ofNat?, dif_pos inRange]
    intro same
    cases same
  · intro same
    cases same

end Numbers

/-- All digits are there before anything follows. -/
theorem steady_digits {before : Text} {count : Nat}
    (few : before.length + count ≤ 5) :
    Steady (digits before count) where
  append {text _ _} taken more := by
    obtain ⟨read, rfl⟩ := pointOfDigits_of_map taken
    have enough : count ≤ text.length := by
      have length := (length_of_pointOfDigits read).1
      rw [List.length_append, List.length_take] at length
      omega
    rw [digits, List.take_append_of_le_length enough,
      List.drop_append_of_le_length enough, read, Outcome.map_ok]
  suffix taken := by
    obtain ⟨_, rfl⟩ := pointOfDigits_of_map taken
    exact List.drop_suffix _ _
  inRange _ found := map_pointOfDigits_inRange few found

/-- The first closing brace is the first one whatever follows. -/
theorem steady_braced : Steady braced where
  append {text _ _} taken more := by
    rw [braced] at taken
    split at taken
    · cases taken
    · next closed =>
      obtain ⟨read, rfl⟩ := pointOfDigits_of_map taken
      have short :
          (text.takeWhile fun point => !Text.isClosingBrace point).length ≤
            text.length :=
        (List.takeWhile_prefix _).length_le
      rw [braced, List.takeWhile_append, if_neg closed,
        if_neg (by rw [List.length_append]; omega),
        List.drop_append_of_le_length (by omega), read, Outcome.map_ok]
  suffix taken := by
    rw [braced] at taken
    split at taken
    · cases taken
    · obtain ⟨_, rfl⟩ := pointOfDigits_of_map taken
      exact List.drop_suffix _ _
  inRange text found := by
    rw [braced]
    split
    · intro same
      cases same
    · exact map_pointOfDigits_inRange (Nat.le_refl 5) found

theorem steady_escape : Steady escape := by
  refine steady_next (fun _ => nofun) fun kind => ?_
  split
  · refine steady_next (fun _ => nofun) fun first => ?_
    split
    · exact steady_braced
    · exact steady_digits (Nat.le_succ 4)
  · split
    · exact steady_digits (by decide)
    · exact steady_given kind

theorem steady_turn (first : CodePoint) : Steady (turn first) := by
  rw [turn]
  split
  · exact steady_escape
  · exact steady_given first

end EscapeReader

namespace Text

open EscapeReader

/-! ## Decoding in turns -/

/-- A code point that is taken, and then what the rest of the text is decoded
to. -/
def decodeBehind (taken : CodePoint × Text) : Except EscapeCause Text :=
  (unescape taken.snd).map fun tail => taken.fst :: tail

theorem bind_decodeBehind (computed : Except EscapeCause CodePoint)
    (rest : Text) :
    (computed.map fun point => (point, rest)) >>= decodeBehind = do
      let point ← computed
      let tail ← unescape rest
      return point :: tail := by
  cases computed with
  | error cause => rfl
  | ok point => cases decoded : unescape rest <;> simp [decodeBehind, decoded]

/-- An escape behind its backslash is taken, and the rest is decoded. -/
theorem unescape_backslash (rest : Text) :
    unescape ('\\' :: rest) = escape rest >>= decodeBehind := by
  rw [unescape.eq_def, escape]
  dsimp only
  rw [if_pos rfl]
  cases rest with
  | nil => rfl
  | cons kind others =>
      rw [next]
      dsimp only
      by_cases byNumber : kind = 'u'
      · rw [if_pos byNumber, if_pos byNumber]
        cases others with
        | nil => rfl
        | cons first inner =>
            rw [next]
            dsimp only
            split
            · rw [braced]
              split
              · rfl
              · exact (bind_decodeBehind _ _).symm
            · exact (bind_decodeBehind _ _).symm
      · rw [if_neg byNumber, if_neg byNumber]
        split
        · exact (bind_decodeBehind _ _).symm
        · exact (bind_decodeBehind (.ok kind) others).symm

/-- Decoding is one turn after the other. -/
theorem unescape_cons (first : CodePoint) (rest : Text) :
    unescape (first :: rest) = turn first rest >>= decodeBehind := by
  rw [turn]
  split
  · next isBackslash => rw [isBackslash, unescape_backslash]
  · next plain =>
    rw [unescape.eq_def]
    dsimp only
    rw [if_neg plain]
    exact (bind_decodeBehind (.ok first) rest).symm

/-- What holds of the empty text, and of a text if it holds of what a turn
leaves, holds of all texts. -/
theorem turns_induction {motive : Text → Prop} (atEnd : motive [])
    (behindTurn : ∀ first rest,
      (∀ point later, turn first rest = .ok (point, later) → motive later) →
        motive (first :: rest))
    (text : Text) : motive text := by
  induction length : text.length using Nat.strongRecOn generalizing text with
  | _ count inductionHypothesis =>
      subst length
      cases text with
      | nil => exact atEnd
      | cons first rest =>
          refine behindTurn first rest fun point later taken => ?_
          have short := ((steady_turn first).suffix taken).length_le
          exact inductionHypothesis _ (Nat.lt_succ_of_le short) later rfl

/-- A text that is decoded is decoded in the same way in front of any other
text, and that text has the outcome that it has alone. -/
theorem unescape_append {text decoded : Text}
    (read : unescape text = .ok decoded) (rest : Text) :
    unescape (text ++ rest) = (unescape rest).map fun tail =>
      decoded ++ tail := by
  induction text using turns_induction generalizing decoded with
  | atEnd =>
      rw [unescape] at read
      obtain rfl := Except.ok.inj read
      cases decoded : unescape rest <;> simp [decoded]
  | behindTurn first others inductionHypothesis =>
      rw [unescape_cons] at read
      obtain ⟨⟨point, later⟩, taken, read⟩ := Outcome.bind_eq_ok.mp read
      rcases Outcome.map_cases read
        with ⟨_, _, failed⟩ | ⟨tail, readLater, same⟩
      · cases failed
      · obtain rfl := Except.ok.inj same
        rw [List.cons_append, unescape_cons, (steady_turn first).append taken,
          Outcome.ok_bind, decodeBehind,
          inductionHypothesis point later taken readLater]
        cases decoded : unescape rest <;> simp

/-- No escape has a number that is out of range. -/
theorem unescape_inRange (text found : Text) :
    unescape text ≠ .error (.outOfRange found) := by
  induction text using turns_induction with
  | atEnd =>
      rw [unescape]
      intro same
      cases same
  | behindTurn first rest inductionHypothesis =>
      intro failed
      rw [unescape_cons] at failed
      rcases Outcome.bind_eq_error.mp failed
        with here | ⟨⟨point, later⟩, taken, behind⟩
      · exact (steady_turn first).inRange rest found here
      · rcases Outcome.map_cases behind
          with ⟨_, failedLater, same⟩ | ⟨_, _, same⟩
        · obtain rfl := Except.error.inj same
          exact inductionHypothesis point later taken failedLater
        · cases same

end Text

/-- What is decoded so far, and what is left of the text. -/
structure Decoding where
  decoded : Text
  rest : Text

namespace Decoding

open EscapeReader

/-- A turn puts the code point that it takes behind those that are decoded. -/
inductive Step : Decoding → Decoding → Prop
  | turn {decoded rest later : Text} {first point : CodePoint} :
      turn first rest = .ok (point, later) →
      Step ⟨decoded, first :: rest⟩ ⟨decoded ++ [point], later⟩

/-- There is no further turn, for want of a text or because of a fault. -/
inductive Ends : Decoding → Except EscapeCause Text → Prop
  | atEnd {decoded : Text} : Ends ⟨decoded, []⟩ (.ok decoded)
  | fault {decoded rest : Text} {first : CodePoint} {cause : EscapeCause} :
      turn first rest = .error cause →
      Ends ⟨decoded, first :: rest⟩ (.error cause)

variable {decoding later : Decoding}

theorem Step.shorter (step : Step decoding later) :
    later.rest.length < decoding.rest.length := by
  obtain ⟨taken⟩ := step
  exact Nat.lt_succ_of_le ((steady_turn _).suffix taken).length_le

/-- No decoding goes on for ever. -/
theorem wellFounded_step : WellFounded fun later decoding =>
  Step decoding later :=
  Subrelation.wf Step.shorter
    (InvImage.wf (fun decoding : Decoding => decoding.rest.length)
      Nat.lt_wfRel.wf)

/-- The turns lead to what decoding makes of the text that is left. -/
theorem exists_ends (decoded rest : Text) :
    ∃ final, ReflTransGen Step ⟨decoded, rest⟩ final ∧
      final.Ends (rest.unescape.map fun tail => decoded ++ tail) := by
  induction rest using Text.turns_induction generalizing decoded with
  | atEnd =>
      refine ⟨_, .refl, ?_⟩
      rw [Text.unescape, Outcome.map_ok, List.append_nil]
      exact .atEnd
  | behindTurn first rest inductionHypothesis =>
      rw [Text.unescape_cons]
      cases taken : turn first rest with
      | error cause => exact ⟨_, .refl, .fault taken⟩
      | ok pair =>
          obtain ⟨point, later⟩ := pair
          obtain ⟨final, path, ends⟩ :=
            inductionHypothesis point later taken (decoded ++ [point])
          refine ⟨final, .head (.turn taken) path, ?_⟩
          rw [Outcome.ok_bind, Text.decodeBehind]
          cases read : later.unescape <;> simpa [read] using ends

/-- A text that can be decoded is decoded in the same way in front of any other
text, and that text is decoded, or fails, as it does alone. The turns always
end, with the outcome of decoding. No number is ever out of range. -/
theorem appends_and_ends :
    (∀ text rest decoded : Text, text.unescape = .ok decoded →
      (text ++ rest).unescape = rest.unescape.map fun tail => decoded ++ tail) ∧
      (WellFounded fun later decoding => Step decoding later) ∧
      (∀ text, ∃ final, ReflTransGen Step ⟨[], text⟩ final ∧
        final.Ends text.unescape) ∧
      ∀ text found : Text, text.unescape ≠ .error (.outOfRange found) := by
  refine ⟨fun text rest decoded read => Text.unescape_append read rest,
    wellFounded_step, fun text => ?_, Text.unescape_inRange⟩
  obtain ⟨final, path, ends⟩ := exists_ends [] text
  refine ⟨final, path, ?_⟩
  cases read : text.unescape <;> simpa [read] using ends

/-- What follows starts with a digit and with the brace that it never closes. -/
theorem appends_after_escapes :
    ("\\x41\\u\x7b1F600\x7d\\q" : Text).unescape = .ok ("A😀q" : Text) ∧
      (("\\x41\\u\x7b1F600\x7d\\q" : Text) ++
          ("1\x7d\\u\x7b41" : Text)).unescape =
        .error .unterminated := by
  have read : ("\\x41\\u\x7b1F600\x7d\\q" : Text).unescape =
      .ok ("A😀q" : Text) := by
    cbv
  refine ⟨read, ?_⟩
  rw [appends_and_ends.1 _ _ _ read]
  cbv

end Decoding

end ModelAudit
