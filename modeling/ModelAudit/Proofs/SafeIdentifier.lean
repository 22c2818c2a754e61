import ModelAudit.Hol.Helper
import ModelAudit.Proofs.FreshName

/-!
# Escaped names are safe identifiers

Escaping is injective, and what it yields can stand in a theory: a letter
followed by letters, digits and underscores, without an underscore at the end,
that is neither reserved nor the constant of a helper.
-/

namespace ModelAudit.Identifier

/-- Identifiers that a theory can use for its own symbols. -/
structure Safe (identifier : Text) : Prop where
  plain : isPlain identifier = true
  finished : identifier.getLast? ≠ some '_'
  unreserved : identifier ∉ reserved
  unhelpful : ∀ helper : Helper, identifier ≠ helper.name

/-! ## The last code point -/

def EndsAlphanumeric (text : Text) : Prop :=
  ∃ last ∈ text.getLast?, isAlphanumeric last = true

theorem EndsAlphanumeric.append {text : Text} (ends : EndsAlphanumeric text)
    (start : Text) :
    EndsAlphanumeric (start ++ text) := by
  obtain ⟨last, isLast, alphanumeric⟩ := ends
  refine ⟨last, ?_, alphanumeric⟩
  rw [Option.mem_def] at isLast ⊢
  rw [List.getLast?_append, isLast, Option.some_or]

theorem endsAlphanumeric_of_forall {text : Text} (nonempty : text ≠ [])
    (alphanumeric : ∀ point ∈ text, isAlphanumeric point = true) :
    EndsAlphanumeric text :=
  ⟨text.getLast nonempty, List.getLast?_eq_getLast_of_ne_nil nonempty,
    alphanumeric _ (List.getLast_mem nonempty)⟩

theorem endsAlphanumeric_hexadecimal {width number : Nat} (positive : 0 < width)
    (fits : number < 16 ^ width) :
    EndsAlphanumeric (Text.hexadecimal width number) := by
  have length := Text.length_hexadecimal positive fits
  refine endsAlphanumeric_of_forall ?_ fun point =>
    isAlphanumeric_of_mem_hexadecimal
  rw [← List.length_pos_iff_ne_nil, length]
  exact positive

/-- An encoded code point ends with a letter or a digit. -/
theorem endsAlphanumeric_encodePoint (point : CodePoint) :
    EndsAlphanumeric (encodePoint point) := by
  cases encoded point with
  | plain alphanumeric shape =>
      rw [shape]
      exact ⟨point, rfl, alphanumeric⟩
  | low fits shape =>
      rw [shape]
      exact (endsAlphanumeric_hexadecimal (by decide) fits).append ['_']
  | high fits shape =>
      rw [shape]
      exact (endsAlphanumeric_hexadecimal (by decide) fits).append ['_', 'u']

/-- An escaped name ends with a letter or a digit. -/
theorem endsAlphanumeric_escape (name : Text) :
    EndsAlphanumeric (escape name) := by
  cases escaped name with
  | empty _ shape =>
      rw [shape]
      exact ⟨'y', by decide +kernel, by decide⟩
  | verbatim plain _ shape =>
      rw [shape]
      refine endsAlphanumeric_of_forall ?_ plain
      rintro rfl
      exact absurd shape (by decide +kernel)
  | encoded named shape =>
      -- The last code point of a name is encoded last.
      have split := List.dropLast_concat_getLast named
      rw [shape, ← split, List.flatMap_append, List.flatMap_singleton]
      exact ((endsAlphanumeric_encodePoint _).append _).append ['v', '_']

/-! ## Safety -/

theorem isForeign_helper_name (helper : Helper) :
    isForeign helper.name = true := by
  have spelled :
      (helper.name.any fun point => !isAlphanumeric point) = true := by
    cases helper <;> decide +kernel
  have unprimed :
      (!helper.name.contains prime && helper.name.take 2 != ("v_" : Text)) =
        true := by
    cases helper <;> decide +kernel
  rw [isForeign, spelled, Bool.or_true, Bool.true_and, unprimed]

theorem StandsFor.ne_helper_name {identifier name : Text}
    (standsFor : StandsFor identifier name) (helper : Helper) :
    identifier ≠ helper.name := by
  rintro rfl
  have foreign := isForeign_helper_name helper
  rw [standsFor.not_isForeign] at foreign
  cases foreign

theorem safe_escape (name : Text) : Safe (escape name) where
  plain := isPlain_escape name
  finished := by
    obtain ⟨last, isLast, alphanumeric⟩ := endsAlphanumeric_escape name
    intro underscore
    rw [Option.mem_def, underscore] at isLast
    obtain rfl := Option.some.inj isLast
    exact absurd alphanumeric (by decide)
  unreserved := StandsFor.not_mem_reserved (.inl rfl)
  unhelpful := StandsFor.ne_helper_name (.inl rfl)

/-- Different names have different identifiers, and each of them is safe,
whatever the code points of the name are. -/
theorem escape_injective_and_safe :
    (∀ left right : Text, escape left = escape right → left = right) ∧
      ∀ name : Text, Safe (escape name) :=
  ⟨fun _ _ same => escape_injective same, safe_escape⟩

/-- A surrogate and a code point of more than four digits, next to an
underscore. -/
example :
    escape ['_', ⟨0xD800, by decide⟩, ⟨0x10FFFF, by decide⟩] =
      ("v__005f_d800_u10ffff" : Text) := by
  decide +kernel

end ModelAudit.Identifier
