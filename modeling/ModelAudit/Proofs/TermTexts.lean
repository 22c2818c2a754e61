import ModelAudit.Hol.Term

/-!
# Texts of the parts of a term

The parts of a term are written one after the other, with the same separator
between all of them.
-/

namespace ModelAudit.HolTerm

theorem conjunctsText_eq_join (parts : List HolTerm) :
    conjunctsText parts = Text.join " \\<and> " (parts.map text) := by
  induction parts with
  | nil => rfl
  | cons first others inductionHypothesis =>
      cases others with
      | nil => simp [conjunctsText, Text.join]
      | cons second others =>
          rw [conjunctsText, inductionHypothesis]
          · simp only [Text.join, List.map_cons, List.intercalate_cons_cons]
          · exact List.cons_ne_nil second others

theorem equationsText_eq_join (equations : List (Text × HolTerm)) :
    equationsText equations =
      Text.join "; "
        (equations.map fun (identifier, value) =>
          identifier ++ " = " ++ value.text) := by
  induction equations with
  | nil => rfl
  | cons first others inductionHypothesis =>
      obtain ⟨identifier, value⟩ := first
      cases others with
      | nil => simp [equationsText, Text.join]
      | cons second others =>
          rw [equationsText, inductionHypothesis]
          · simp only [Text.join, List.map_cons, List.intercalate_cons_cons]
          · exact List.cons_ne_nil second others

end ModelAudit.HolTerm
