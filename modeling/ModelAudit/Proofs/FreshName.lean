import Mathlib.Data.List.Nodup
import Mathlib.Data.List.TakeWhile
import ModelAudit.Proofs.Identifier

/-!
# Identifiers of binders

The identifier of a binder is the escaped name, possibly primed. It is new:
neither taken nor avoided nor reserved. Since escaped names hold no prime, it
also tells which name it stands for, whatever the scope in which it was picked.
-/

namespace ModelAudit

namespace Text

theorem decimalValue_decimal (number : Nat) :
    decimalValue (decimal number) = number := by
  have digits := Nat.ofDigitChars_ten_toDigits (n := number)
  rw [Nat.ofDigitChars_eq_foldl] at digits
  simpa [decimalValue, decimal, List.foldl_map, CodePoint.ofChar] using digits

theorem decimal_injective : Function.Injective decimal := by
  intro left right same
  have values := congrArg decimalValue same
  simpa only [decimalValue_decimal] using values

end Text

namespace Identifier

/-- The mark between an escaped name and a number. -/
def prime : CodePoint := '\''

theorem prime_not_mem_escape (name : Text) : prime ∉ escape name := by
  intro member
  have part := isPart_of_mem_escape member
  exact absurd part (by decide)

/-- The part of an identifier before the first prime. -/
def stem (identifier : Text) : Text :=
  identifier.takeWhile fun point => point ≠ prime

theorem primed_eq (identifier : Text) (number : Nat) :
    HolScope.primed identifier number =
      identifier ++ prime :: Text.decimal number := by
  have mark : ("'" : Text) = [prime] := by decide +kernel
  simp [HolScope.primed, mark]

theorem stem_escape (name : Text) : stem (escape name) = escape name := by
  rw [stem, List.takeWhile_eq_self_iff]
  intro point member
  have different : point ≠ prime := by
    rintro rfl
    exact prime_not_mem_escape name member
  simpa using different

theorem stem_primed (name : Text) (number : Nat) :
    stem (HolScope.primed (escape name) number) = escape name := by
  have clean := stem_escape name
  rw [stem, List.takeWhile_eq_self_iff] at clean
  rw [primed_eq, stem, List.takeWhile_append_of_pos clean]
  simp

/-- The identifiers that a binder of a name may get. -/
def StandsFor (identifier name : Text) : Prop :=
  identifier = escape name ∨
  ∃ number, identifier = HolScope.primed (escape name) number

theorem StandsFor.stem_eq {identifier name : Text}
    (standsFor : StandsFor identifier name) :
    stem identifier = escape name := by
  rcases standsFor with rfl | ⟨number, rfl⟩
  · exact stem_escape name
  · exact stem_primed name number

/-- An identifier stands for one name only. -/
theorem StandsFor.unique {identifier left right : Text}
    (first : StandsFor identifier left) (second : StandsFor identifier right) :
    left = right :=
  escape_injective (first.stem_eq.symm.trans second.stem_eq)

theorem primed_injective (identifier : Text) :
    Function.Injective (HolScope.primed identifier) := by
  intro left right same
  rw [primed_eq, primed_eq, List.append_cancel_left_eq, List.cons.injEq] at same
  exact Text.decimal_injective same.2

theorem prime_mem_primed (identifier : Text) (number : Nat) :
    prime ∈ HolScope.primed identifier number := by
  simp [primed_eq]

/-! ## Words that stand for no name -/

/-- Reserved words and texts with other points than letters and digits, unless
they look like an encoded name. -/
def isForeign (symbol : Text) : Bool :=
  (reserved.contains symbol || symbol.any fun point => !isAlphanumeric point) &&
    !symbol.contains prime && symbol.take 2 != ("v_" : Text)

/-- What stands for a name is not foreign to names. -/
theorem StandsFor.not_isForeign {symbol name : Text}
    (standsFor : StandsFor symbol name) :
    isForeign symbol = false := by
  rw [← Bool.not_eq_true]
  intro foreign
  simp only [isForeign, Bool.and_eq_true, Bool.or_eq_true, Bool.not_eq_true',
    bne_iff_ne, List.any_eq_true, List.contains_eq_mem, decide_eq_true_eq,
    decide_eq_false_iff_not] at foreign
  obtain ⟨⟨foreign, unprimed⟩, start⟩ := foreign
  rcases standsFor with rfl | ⟨number, rfl⟩
  · cases escaped name with
    | empty _ shape =>
        rw [shape, ofEmpty_eq] at start
        exact start (by decide +kernel)
    | verbatim plain free shape =>
        rw [shape] at foreign
        rcases foreign with word | ⟨point, member, other⟩
        · simp [word] at free
        · rw [plain point member] at other
          cases other
    | encoded _ shape =>
        rw [shape] at start
        have mark : [('v' : CodePoint), ('_' : CodePoint)] = ("v_" : Text) := by
          decide +kernel
        exact start mark
  · exact unprimed (prime_mem_primed _ _)

theorem StandsFor.not_mem_reserved {identifier name : Text}
    (standsFor : StandsFor identifier name) : identifier ∉ reserved := by
  intro member
  have reservedForeign : ∀ word ∈ reserved, isForeign word = true := by
    decide +kernel
  have foreign := reservedForeign identifier member
  rw [standsFor.not_isForeign] at foreign
  cases foreign

end Identifier

namespace HolScope

open Identifier

/-- Among more candidates than identifiers to avoid, one is free, whatever the
first number is. -/
theorem exists_primed_not_mem (base : Text) (avoided : List Text)
    (start : Nat) :
    ∃ index ≤ avoided.length, primed base (index + start) ∉ avoided := by
  by_contra absent
  have allAvoided :
      ((List.range (avoided.length + 1)).map fun index => primed base
        (index + start)) ⊆
        avoided := by
    intro candidate member
    obtain ⟨index, inRange, rfl⟩ := List.mem_map.mp member
    by_contra free
    exact absent ⟨index, Nat.le_of_lt_succ (List.mem_range.mp inRange), free⟩
  have distinct :
      ((List.range (avoided.length + 1)).map fun index => primed base
        (index + start)).Nodup := by
    rw [List.nodup_map_iff_inj_on List.nodup_range]
    intro left _ right _ same
    exact Nat.add_right_cancel (primed_injective base same)
  have short := distinct.length_le_of_subset allAvoided
  rw [List.length_map, List.length_range] at short
  omega

/-- Only the avoided candidates before the first free one matter. -/
theorem firstPrimed_spec (base : Text) (avoided : List Text) :
    ∃ index, firstPrimed base avoided = primed base (index + 1) ∧
      primed base (index + 1) ∉ avoided ∧
      ∀ earlier < index, primed base (earlier + 1) ∈ avoided := by
  obtain ⟨candidate, inRange, free⟩ := exists_primed_not_mem base avoided 1
  have isSome :
      (((List.range (avoided.length + 1)).map fun index => primed base
        (index + 1)).find?
      fun candidate => !avoided.contains candidate).isSome := by
    rw [List.find?_isSome]
    refine ⟨_, List.mem_map_of_mem
      (List.mem_range.mpr (Nat.lt_succ_of_le inRange)), ?_⟩
    simpa using free
  obtain ⟨first, found⟩ := Option.isSome_iff_exists.mp isSome
  rw [firstPrimed, found, Option.getD_some]
  rw [List.find?_map, Option.map_eq_some_iff] at found
  obtain ⟨index, found, rfl⟩ := found
  obtain ⟨unused, _, used⟩ := List.find?_range_eq_some.mp found
  exact ⟨index, rfl, by simpa using unused,
    fun earlier less => by simpa using used earlier less⟩

variable (scope : HolScope) (name : Text) (avoided : List Text)

/-- The identifier of a new binder is the escaped name, or the first primed one
that is not in use. -/
theorem fresh_cases :
    (escape name ∉ scope.taken ++ avoided ∧ escape name ∉ reserved ∧
        scope.fresh name avoided = escape name) ∨
      (¬(escape name ∉ scope.taken ++ avoided ∧ escape name ∉ reserved) ∧
        scope.fresh name avoided = firstPrimed (escape name)
          (scope.taken ++ avoided)) := by
  have unusable_iff : ((scope.taken ++ avoided).contains (escape name) ||
      reserved.contains (escape name)) = true ↔
        ¬(escape name ∉ scope.taken ++ avoided ∧ escape name ∉ reserved) := by
    rw [Bool.or_eq_true, List.contains_iff_mem, List.contains_iff_mem]
    tauto
  rw [fresh]
  split
  · next unusable => exact .inr ⟨unusable_iff.mp unusable, rfl⟩
  · next usable =>
    obtain ⟨free, plain⟩ := not_not.mp (mt unusable_iff.mpr usable)
    exact .inl ⟨free, plain, rfl⟩

theorem fresh_standsFor : StandsFor (scope.fresh name avoided) name := by
  rcases fresh_cases scope name avoided with ⟨_, _, same⟩ | ⟨_, same⟩
  · exact .inl same
  · obtain ⟨index, shape, _⟩ :=
      firstPrimed_spec (escape name) (scope.taken ++ avoided)
    exact .inr ⟨index + 1, same.trans shape⟩

theorem fresh_not_mem : scope.fresh name avoided ∉ scope.taken ++ avoided := by
  rcases fresh_cases scope name avoided with ⟨free, _, same⟩ | ⟨_, same⟩
  · rwa [same]
  · obtain ⟨index, shape, free, _⟩ :=
      firstPrimed_spec (escape name) (scope.taken ++ avoided)
    rwa [same, shape]

theorem fresh_not_mem_reserved : scope.fresh name avoided ∉ reserved :=
  (fresh_standsFor scope name avoided).not_mem_reserved

end HolScope

end ModelAudit
