import Mathlib.Algebra.Group.Nat.Defs
import ModelAudit.Hol.Scope
import ModelAudit.Proofs.DigitValues

/-!
# Identifiers determine the symbols they stand for

`Identifier.escape` is injective: its three kinds of results are told apart by
the underscore, and the encoding of a name is read back point by point. An
identifier that a binder gets, primed or not, therefore comes from one name
only.
-/

namespace ModelAudit

namespace Text

/-! ## Hexadecimal digits -/

private theorem toDigits_sixteen_digit (number : Nat) :
    ∀ digit ∈ Nat.toDigits 16 number, ∃ value < 16,
      digit = Nat.digitChar value := by
  induction number using Nat.strongRecOn with
  | _ number inductionHypothesis =>
      intro digit member
      rw [Nat.toDigits_eq_if (by decide)] at member
      by_cases small : number < 16
      · rw [if_pos small, List.mem_singleton] at member
        exact ⟨number, small, member⟩
      · rw [if_neg small, List.mem_append, List.mem_singleton] at member
        rcases member with earlier | last
        · exact inductionHypothesis (number / 16) (by omega) digit earlier
        · exact ⟨number % 16, Nat.mod_lt _ (by decide), last⟩

private theorem isHexDigit_digitChar :
    ∀ value < 16, (CodePoint.ofChar (Nat.digitChar value)).isHexDigit =
      true := by
  decide

private theorem hexValue?_digitChar :
    ∀ value < 16, (CodePoint.ofChar (Nat.digitChar value)).hexValue? =
      some value := by
  decide

theorem isHexDigit_of_mem_hexadecimal {width number : Nat} {point : CodePoint}
    (member : point ∈ hexadecimal width number) :
    point.isHexDigit = true := by
  simp only [hexadecimal, List.mem_map, List.mem_append, List.mem_replicate]
    at member
  obtain ⟨digit, source, rfl⟩ := member
  rcases source with ⟨_, rfl⟩ | digits
  · decide
  · obtain ⟨value, small, rfl⟩ := toDigits_sixteen_digit number digit digits
    exact isHexDigit_digitChar value small

theorem isHexDigit_of_mem_upperHexadecimal {width number : Nat}
    {point : CodePoint} (member : point ∈ upperHexadecimal width number) :
    point.isHexDigit = true := by
  have upper : ∀ value < 16,
      (CodePoint.ofChar (Nat.digitChar value).toUpper).isHexDigit = true := by
    decide
  simp only [upperHexadecimal, List.mem_map, List.mem_append,
    List.mem_replicate] at member
  obtain ⟨_, ⟨_, rfl⟩ | ⟨digit, digits, rfl⟩, rfl⟩ := member
  · decide
  · obtain ⟨value, small, rfl⟩ := toDigits_sixteen_digit number digit digits
    exact upper value small

theorem length_hexadecimal {width number : Nat} (positive : 0 < width)
    (fits : number < 16 ^ width) :
    (hexadecimal width number).length = width := by
  have short : (Nat.toDigits 16 number).length ≤ width :=
    (Nat.length_toDigits_le_iff (by decide) positive).mpr fits
  simp only [hexadecimal, List.length_map, List.length_append,
    List.length_replicate]
  omega

/-- Hexadecimal digits are read as the number that they were written for. -/
private theorem baseValue_toDigits (number : Nat) :
    baseValue 16 ((Nat.toDigits 16 number).map CodePoint.ofChar) = number := by
  induction number using Nat.strongRecOn with
  | _ number inductionHypothesis =>
      rw [Nat.toDigits_eq_if (by decide)]
      by_cases small : number < 16
      · simp [if_pos small, baseValue, hexValue?_digitChar number small]
      · have smaller := inductionHypothesis (number / 16) (by omega)
        have digit :=
          hexValue?_digitChar (number % 16) (Nat.mod_lt _ (by decide))
        rw [if_neg small, List.map_append, baseValue_append, smaller]
        simp only [List.map_cons, List.map_nil, List.foldl_cons,
          List.foldl_nil, digit, Option.getD_some]
        exact Nat.div_add_mod number 16

private theorem baseValue_zeros (count : Nat) :
    baseValue 16 ((List.replicate count '0').map CodePoint.ofChar) = 0 := by
  induction count with
  | zero => rfl
  | succ count inductionHypothesis =>
      rw [List.replicate_succ', List.map_append, baseValue_append,
        inductionHypothesis]
      decide

theorem baseValue_hexadecimal (width number : Nat) :
    baseValue 16 (hexadecimal width number) = number := by
  have digits := baseValue_toDigits number
  rw [hexadecimal, List.map_append, baseValue_append, baseValue_zeros]
  exact digits

theorem hexadecimal_injective {width left right : Nat}
    (same : hexadecimal width left = hexadecimal width right) :
    left = right := by
  have values := congrArg (baseValue 16) same
  simpa only [baseValue_hexadecimal] using values

end Text

namespace Identifier

/-! ## Reading an encoding back -/

theorem encodePoint_of_alphanumeric {point : CodePoint}
    (alphanumeric : isAlphanumeric point = true) :
    encodePoint point = [point] := by
  simp [encodePoint, alphanumeric]

theorem encodePoint_of_low {point : CodePoint}
    (special : isAlphanumeric point = false) (low : point.toNat ≤ 0xFFFF) :
    encodePoint point =
      ('_' : CodePoint) :: Text.hexadecimal 4 point.toNat := by
  have notHigh : ¬ 0xFFFF < point.toNat := by omega
  have underscore : ("_" : Text) = [('_' : CodePoint)] := by decide +kernel
  simp [encodePoint, special, notHigh, underscore]

theorem encodePoint_of_high {point : CodePoint}
    (special : isAlphanumeric point = false) (high : 0xFFFF < point.toNat) :
    encodePoint point =
      ('_' : CodePoint) :: ('u' : CodePoint) :: Text.hexadecimal 6
        point.toNat := by
  have mark : ("_u" : Text) = [('_' : CodePoint), ('u' : CodePoint)] := by
    decide +kernel
  simp [encodePoint, special, high, mark]

/-- The shapes of an encoded code point. -/
inductive Encoded (point : CodePoint) : Prop
  | plain (alphanumeric : isAlphanumeric point = true)
      (shape : encodePoint point = [point])
  | low (short : point.toNat < 16 ^ 4)
      (shape : encodePoint point =
        ('_' : CodePoint) :: Text.hexadecimal 4 point.toNat)
  | high (short : point.toNat < 16 ^ 6)
      (shape : encodePoint point =
        ('_' : CodePoint) :: ('u' : CodePoint) :: Text.hexadecimal 6
          point.toNat)

theorem encoded (point : CodePoint) : Encoded point := by
  cases alphanumeric : isAlphanumeric point with
  | true => exact .plain alphanumeric (encodePoint_of_alphanumeric alphanumeric)
  | false =>
      have bound := point.toNat_lt
      by_cases low : point.toNat ≤ 0xFFFF
      · exact .low (by omega) (encodePoint_of_low alphanumeric low)
      · exact .high (by omega) (encodePoint_of_high alphanumeric (by omega))

/-- Of two texts that begin with the numbers of code points in one width, both
the code points and the rests are told apart. -/
private theorem hexadecimal_append_injective {width : Nat}
    {left right : CodePoint} {leftRest rightRest : Text} (positive : 0 < width)
    (leftFits : left.toNat < 16 ^ width)
    (rightFits : right.toNat < 16 ^ width)
    (same : Text.hexadecimal width left.toNat ++ leftRest =
      Text.hexadecimal width right.toNat ++ rightRest) :
    left = right ∧ leftRest = rightRest := by
  have lengths :
      (Text.hexadecimal width left.toNat).length =
        (Text.hexadecimal width right.toNat).length := by
    rw [Text.length_hexadecimal positive leftFits,
      Text.length_hexadecimal positive rightFits]
  obtain ⟨digits, rest⟩ := List.append_inj same lengths
  have numbers : left.toNat = right.toNat := Text.hexadecimal_injective digits
  cases left; cases right
  exact ⟨by simpa using numbers, rest⟩

/-- No hexadecimal digits start with the mark of the long form. -/
private theorem hexadecimal_append_ne_cons {number : Nat}
    {leftRest rightRest : Text} {mark : CodePoint} (fits : number < 16 ^ 4)
    (noDigit : mark.isHexDigit = false) :
    Text.hexadecimal 4 number ++ leftRest ≠ mark :: rightRest := by
  intro same
  have length : (Text.hexadecimal 4 number).length = 4 :=
    Text.length_hexadecimal (by decide) fits
  cases digits : Text.hexadecimal 4 number with
  | nil => simp [digits] at length
  | cons first others =>
      have member : first ∈ Text.hexadecimal 4 number := by simp [digits]
      have digit := Text.isHexDigit_of_mem_hexadecimal member
      rw [digits, List.cons_append, List.cons.injEq] at same
      rw [same.1, noDigit] at digit
      exact Bool.false_ne_true digit

/-- No encoding of a code point is the start of the encoding of another one. -/
theorem encodePoint_append_injective {left right : CodePoint}
    {leftRest rightRest : Text}
    (same : encodePoint left ++ leftRest = encodePoint right ++ rightRest) :
    left = right ∧ leftRest = rightRest := by
  have underscore : isAlphanumeric ('_' : CodePoint) = false := by decide
  have mark : CodePoint.isHexDigit ('u' : CodePoint) = false := by decide
  cases encoded left with
  | plain leftPlain leftShape =>
      cases encoded right with
      | plain _ rightShape => simpa [leftShape, rightShape] using same
      | low _ rightShape | high _ rightShape =>
          simp only [leftShape, rightShape, List.cons_append, List.cons.injEq]
            at same
          rw [same.1, underscore] at leftPlain
          exact absurd leftPlain Bool.false_ne_true
  | low leftFits leftShape =>
      cases encoded right with
      | plain rightPlain rightShape =>
          simp only [leftShape, rightShape, List.cons_append, List.cons.injEq]
            at same
          rw [← same.1, underscore] at rightPlain
          exact absurd rightPlain Bool.false_ne_true
      | low rightFits rightShape =>
          simp only [leftShape, rightShape, List.cons_append, List.cons.injEq,
            true_and] at same
          exact hexadecimal_append_injective (by decide) leftFits rightFits same
      | high _ rightShape =>
          simp only [leftShape, rightShape, List.cons_append, List.cons.injEq,
            true_and] at same
          exact absurd same (hexadecimal_append_ne_cons leftFits mark)
  | high leftFits leftShape =>
      cases encoded right with
      | plain rightPlain rightShape =>
          simp only [leftShape, rightShape, List.cons_append, List.cons.injEq]
            at same
          rw [← same.1, underscore] at rightPlain
          exact absurd rightPlain Bool.false_ne_true
      | low rightFits rightShape =>
          simp only [leftShape, rightShape, List.cons_append, List.cons.injEq,
            true_and] at same
          exact absurd same.symm (hexadecimal_append_ne_cons rightFits mark)
      | high rightFits rightShape =>
          simp only [leftShape, rightShape, List.cons_append, List.cons.injEq,
            true_and] at same
          exact hexadecimal_append_injective (by decide) leftFits rightFits same

theorem encodePoint_ne_nil (point : CodePoint) : encodePoint point ≠ [] := by
  cases encoded point with
  | plain _ shape | low _ shape | high _ shape => simp [shape]

theorem flatMap_encodePoint_injective :
    ∀ {left right : Text}, left.flatMap encodePoint =
      right.flatMap encodePoint → left = right
  | [], [], _ => rfl
  | [], point :: _, same => by simp [encodePoint_ne_nil] at same
  | point :: _, [], same => by simp [encodePoint_ne_nil] at same
  | left :: leftRest, right :: rightRest, same => by
      rw [List.flatMap_cons, List.flatMap_cons] at same
      obtain ⟨points, rest⟩ := encodePoint_append_injective same
      rw [points, flatMap_encodePoint_injective rest]

/-! ## The three kinds of identifiers -/

/-- Letters and digits stand for themselves. -/
theorem escape_of_verbatim {name : Text} (verbatim : isVerbatim name = true)
    (free : reserved.contains name = false) :
    escape name = name := by
  cases name with
  | nil => simp [isVerbatim] at verbatim
  | cons first rest =>
      have kept : (isVerbatim (first :: rest) && !reserved.contains
          (first :: rest)) = true := by
        rw [verbatim, free]
        rfl
      rw [escape, if_neg (by simp), if_pos kept]

/-- The results of escaping, with what tells them apart. -/
inductive Escaped (name : Text) : Prop
  | empty (nameless : name = []) (shape : escape name = ofEmpty)
  | verbatim (plain : ∀ point ∈ name, isAlphanumeric point = true)
      (free : reserved.contains name = false) (shape : escape name = name)
  | encoded (named : name ≠ [])
      (shape : escape name =
        ('v' : CodePoint) :: ('_' : CodePoint) :: name.flatMap encodePoint)

theorem isAlphanumeric_of_isVerbatim {name : Text}
    (verbatim : isVerbatim name = true) :
    ∀ point ∈ name, isAlphanumeric point = true := by
  cases name with
  | nil => simp [isVerbatim] at verbatim
  | cons first rest =>
      simp only [isVerbatim, Bool.and_eq_true, List.all_eq_true] at verbatim
      intro point member
      rcases List.mem_cons.mp member with rfl | later
      · simp [isAlphanumeric, verbatim.1]
      · exact verbatim.2 point later

theorem escaped (name : Text) : Escaped name := by
  by_cases nameless : name = []
  · exact .empty nameless (by simp [nameless, escape])
  · by_cases kept : (isVerbatim name && !reserved.contains name) = true
    · obtain ⟨verbatim, free⟩ := Bool.and_eq_true_iff.mp kept
      have free : reserved.contains name = false := by simpa using free
      exact .verbatim (isAlphanumeric_of_isVerbatim verbatim) free
        (escape_of_verbatim verbatim free)
    · have start : ("v_" : Text) = [('v' : CodePoint), ('_' : CodePoint)] := by
        decide +kernel
      refine .encoded nameless ?_
      rw [escape, if_neg (by simpa using nameless), if_neg kept, start]
      rfl

theorem ofEmpty_eq :
    ofEmpty = ('v' : CodePoint) :: ('_' : CodePoint) ::
      ('_' : CodePoint) :: ('u' : CodePoint) :: ("empty" : Text) := by
  decide +kernel

/-! ## The code points of identifiers -/

/-- The letters, the digits and the underscore. -/
def isPart (point : CodePoint) : Bool :=
  isAlphanumeric point || point = '_'

/-- A letter followed by letters, digits and underscores. -/
def isPlain : Text → Bool
  | [] => false
  | first :: rest => first.isLetter && rest.all isPart

theorem isPlain_cons {first : CodePoint} {rest : Text} :
    isPlain (first :: rest) = true ↔
      first.isLetter = true ∧ ∀ point ∈ rest, isPart point = true := by
  rw [isPlain, Bool.and_eq_true, List.all_eq_true]

theorem isPart_of_isAlphanumeric {point : CodePoint}
    (alphanumeric : isAlphanumeric point = true) : isPart point = true := by
  simp [isPart, alphanumeric]

theorem isAlphanumeric_of_isHexDigit {point : CodePoint}
    (digit : point.isHexDigit = true) :
    isAlphanumeric point = true := by
  obtain ⟨value, found⟩ := Option.isSome_iff_exists.mp digit
  simp only [isAlphanumeric, CodePoint.isLetter, CodePoint.isDigit,
    Bool.or_eq_true, Bool.and_eq_true, decide_eq_true_eq]
  unfold CodePoint.hexValue? at found
  split at found
  · next decimal => exact .inr (by simpa [CodePoint.isDigit] using decimal)
  · split at found
    · next upper =>
      rw [Bool.and_eq_true, decide_eq_true_eq, decide_eq_true_eq] at upper
      omega
    · split at found
      · next lower =>
        rw [Bool.and_eq_true, decide_eq_true_eq, decide_eq_true_eq] at lower
        omega
      · cases found

theorem isAlphanumeric_of_mem_hexadecimal {width number : Nat}
    {point : CodePoint} (member : point ∈ Text.hexadecimal width number) :
    isAlphanumeric point = true :=
  isAlphanumeric_of_isHexDigit (Text.isHexDigit_of_mem_hexadecimal member)

/-- An encoded code point is made of letters, digits and underscores. -/
theorem isPart_of_mem_encodePoint {point part : CodePoint}
    (member : part ∈ encodePoint point) : isPart part = true := by
  have hexadecimal {width : Nat}
      (inside : part ∈ Text.hexadecimal width point.toNat) :
      isPart part = true :=
    isPart_of_isAlphanumeric (isAlphanumeric_of_mem_hexadecimal inside)
  cases encoded point with
  | plain alphanumeric shape =>
      rw [shape, List.mem_singleton] at member
      exact member ▸ isPart_of_isAlphanumeric alphanumeric
  | low _ shape =>
      rw [shape] at member
      rcases List.mem_cons.mp member with rfl | digits
      · decide
      · exact hexadecimal digits
  | high _ shape =>
      rw [shape] at member
      rcases List.mem_cons.mp member with rfl | others
      · decide
      · rcases List.mem_cons.mp others with rfl | digits
        · decide
        · exact hexadecimal digits

/-- An escaped name starts with a letter. -/
theorem isPlain_escape (name : Text) : isPlain (escape name) = true := by
  unfold escape
  split
  · decide
  · split
    · next kept =>
      have verbatim := (Bool.and_eq_true_iff.mp kept).1
      cases name with
      | nil => cases verbatim
      | cons first rest =>
          obtain ⟨letter, others⟩ := Bool.and_eq_true_iff.mp verbatim
          refine isPlain_cons.mpr ⟨letter, ?_⟩
          intro point member
          exact isPart_of_isAlphanumeric
            (List.all_eq_true.mp others point member)
    · have start : ("v_" : Text) = [('v' : CodePoint), ('_' : CodePoint)] := by
        decide +kernel
      rw [start]
      refine isPlain_cons.mpr
        ⟨by decide, List.forall_mem_cons.mpr ⟨by decide, ?_⟩⟩
      intro part member
      obtain ⟨point, _, inside⟩ := List.mem_flatMap.mp member
      exact isPart_of_mem_encodePoint inside

theorem isPart_of_mem_escape {name : Text} {point : CodePoint}
    (member : point ∈ escape name) :
    isPart point = true := by
  have plain := isPlain_escape name
  cases shape : escape name with
  | nil => simp [shape] at member
  | cons first rest =>
      rw [shape] at plain member
      obtain ⟨letter, parts⟩ := isPlain_cons.mp plain
      rcases List.mem_cons.mp member with rfl | later
      · exact isPart_of_isAlphanumeric (by simp [isAlphanumeric, letter])
      · exact parts point later

/-! ## Escaping is injective -/

private theorem not_isAlphanumeric_underscore :
    isAlphanumeric ('_' : CodePoint) = false := by
  decide

/-- The identifier of the empty name is no encoding of another name. -/
private theorem flatMap_encodePoint_ne_uempty {name : Text} :
    name.flatMap encodePoint ≠
      ('_' : CodePoint) :: ('u' : CodePoint) :: ("empty" : Text) := by
  intro same
  cases name with
  | nil => simp at same
  | cons point rest =>
      rw [List.flatMap_cons] at same
      cases encoded point with
      | plain alphanumeric shape =>
          simp only [shape, List.cons_append, List.cons.injEq] at same
          rw [same.1, not_isAlphanumeric_underscore] at alphanumeric
          exact Bool.false_ne_true alphanumeric
      | low fits shape =>
          simp only [shape, List.cons_append, List.cons.injEq, true_and] at same
          exact hexadecimal_append_ne_cons fits (by decide) same
      | high fits shape =>
          simp only [shape, List.cons_append, List.cons.injEq, true_and] at same
          have lengths := congrArg List.length same
          have short : ("empty" : Text).length = 5 := by decide +kernel
          rw [List.length_append, Text.length_hexadecimal (by decide) fits,
            short] at lengths
          omega

/-- Names are told apart: as a whole they are verbatim, empty or encoded, and
encodings start differently. -/
theorem escape_injective : Function.Injective escape := by
  intro left right same
  cases escaped left with
  | empty leftEmpty leftShape =>
      cases escaped right with
      | empty rightEmpty _ => rw [leftEmpty, rightEmpty]
      | verbatim plain _ rightShape =>
          rw [leftShape, rightShape, ofEmpty_eq] at same
          have underscore := plain '_' (by simp [← same])
          simp [not_isAlphanumeric_underscore] at underscore
      | encoded _ rightShape =>
          rw [leftShape, rightShape, ofEmpty_eq] at same
          simp only [List.cons.injEq, true_and] at same
          exact absurd same.symm flatMap_encodePoint_ne_uempty
  | verbatim leftPlain _ leftShape =>
      cases escaped right with
      | empty _ rightShape =>
          rw [leftShape, rightShape, ofEmpty_eq] at same
          have underscore := leftPlain '_' (by simp [same])
          simp [not_isAlphanumeric_underscore] at underscore
      | verbatim _ _ rightShape => rwa [leftShape, rightShape] at same
      | encoded _ rightShape =>
          rw [leftShape, rightShape] at same
          have underscore := leftPlain '_' (by simp [same])
          simp [not_isAlphanumeric_underscore] at underscore
  | encoded _ leftShape =>
      cases escaped right with
      | empty _ rightShape =>
          rw [leftShape, rightShape, ofEmpty_eq] at same
          simp only [List.cons.injEq, true_and] at same
          exact absurd same flatMap_encodePoint_ne_uempty
      | verbatim rightPlain _ rightShape =>
          rw [leftShape, rightShape] at same
          have underscore := rightPlain '_' (by simp [← same])
          simp [not_isAlphanumeric_underscore] at underscore
      | encoded _ rightShape =>
          rw [leftShape, rightShape] at same
          simp only [List.cons.injEq, true_and] at same
          exact flatMap_encodePoint_injective same

end Identifier

end ModelAudit
