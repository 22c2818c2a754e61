import ModelAudit.Proofs.HolParts
import ModelAudit.Proofs.InnerSyntax
import ModelAudit.Proofs.TermTexts

/-!
# Where the parts of a term stand

Every part of a term is written somewhere in the text of the term, between
delimiters, so no word goes on from the part to what is around it.
-/

namespace ModelAudit

open InnerSyntax

namespace Text

/-- The inner text stands in the outer one, and delimiters are around it. -/
def PlacedIn (inner outer : Text) : Prop :=
  ∃ before after, outer = before ++ inner ++ after ∧
    before.getLast?.all isDelimiter = true ∧ after.head?.all isDelimiter = true

abbrev Opens (mark : Text) : Prop :=
  ∃ point ∈ mark.head?, isDelimiter point = true

abbrev Closes (mark : Text) : Prop :=
  ∃ point ∈ mark.getLast?, isDelimiter point = true

namespace PlacedIn

variable {inner middle outer mark separator : Text} {parts : List Text}

theorem refl (inner : Text) : PlacedIn inner inner :=
  ⟨[], [], (List.append_nil inner).symm, rfl, rfl⟩

/-- What stands in a text stands in all that the text stands in. -/
theorem trans (placed : PlacedIn inner middle)
    (outside : PlacedIn middle outer) :
    PlacedIn inner outer := by
  obtain ⟨before, after, rfl, beforeEnds, afterStarts⟩ := placed
  obtain ⟨first, last, rfl, firstEnds, lastStarts⟩ := outside
  refine ⟨first ++ before, after ++ last, by simp, ?_, ?_⟩
  · rw [List.getLast?_append]
    cases ends : before.getLast? with
    | none => exact firstEnds
    | some point => simpa [ends] using beforeEnds
  · rw [List.head?_append]
    cases starts : after.head? with
    | none => exact lastStarts
    | some point => simpa [starts] using afterStarts

/-- A mark stands before the text, whatever is before the mark. -/
theorem behind (closes : mark.Closes) (front inner : Text) :
    PlacedIn inner (front ++ mark ++ inner) := by
  obtain ⟨point, last, delimits⟩ := closes
  refine ⟨front ++ mark, [], (List.append_nil _).symm, ?_, rfl⟩
  rw [List.getLast?_append, Option.mem_def.mp last]
  exact delimits

/-- A mark follows the text, whatever is behind the mark. -/
theorem ahead (opens : mark.Opens) (placed : PlacedIn inner outer)
    (back : Text) :
    PlacedIn inner (outer ++ mark ++ back) := by
  obtain ⟨point, first, delimits⟩ := opens
  refine trans placed ⟨[], mark ++ back, by simp, rfl, ?_⟩
  rw [List.head?_append, Option.mem_def.mp first]
  exact delimits

theorem lead (closes : mark.Closes) (inner : Text) :
    PlacedIn inner (mark ++ inner) :=
  behind closes [] inner

theorem close (opens : mark.Opens) (placed : PlacedIn inner outer) :
    PlacedIn inner (outer ++ mark) := by
  simpa using placed.ahead opens []

theorem join (opens : separator.Opens) (closes : separator.Closes)
    (member : inner ∈ parts) :
    PlacedIn inner (Text.join separator parts) := by
  induction parts with
  | nil => cases member
  | cons first others inductionHypothesis =>
      cases others with
      | nil =>
          obtain rfl := List.mem_singleton.mp member
          rw [Text.join, List.intercalate_singleton]
          exact refl inner
      | cons second others =>
          rw [Text.join, List.intercalate_cons_cons]
          rcases List.mem_cons.mp member with rfl | later
          · exact (refl inner).ahead opens _
          · exact (inductionHypothesis later).trans (behind closes _ _)

end PlacedIn

end Text

/-! ## Parts of a term -/

namespace HolTerm

open Text

variable {part whole : HolTerm}

theorem placedIn_before_arguments {inner outer : Text}
    (placed : PlacedIn inner outer) (arguments : List HolTerm) :
    PlacedIn inner (outer ++ argumentsText arguments) := by
  cases arguments with
  | nil => simpa [argumentsText] using placed
  | cons argument arguments =>
      have blank : Opens " " := by decide
      simpa [argumentsText]
        using placed.ahead blank (argument.text ++ argumentsText arguments)

theorem placedIn_argumentsText {arguments : List HolTerm}
    (member : part ∈ arguments) (front : Text) :
    PlacedIn part.text (front ++ argumentsText arguments) := by
  induction arguments generalizing front with
  | nil => cases member
  | cons first others inductionHypothesis =>
      rw [argumentsText, ← List.append_assoc, ← List.append_assoc]
      rcases List.mem_cons.mp member with rfl | later
      · have blank : Closes " " := by decide
        exact placedIn_before_arguments (.behind blank front part.text) others
      · exact inductionHypothesis later _

/-- Each part of a term is written somewhere in its text, between delimiters. -/
theorem placedIn_of_mem_components (member : part ∈ whole.components) :
    PlacedIn part.text whole.text := by
  have opening : Closes "(" := by decide
  have closing : Opens ")" := by decide
  cases whole with
  | name _ | constant _ | numeral _ _ | characters _ | operatorSection _ =>
    cases member
  | apply function arguments =>
      refine .close closing ?_
      rcases List.mem_cons.mp member with rfl | inside
      · exact placedIn_before_arguments (.lead opening _) _
      · exact placedIn_argumentsText inside _
  | operation symbol left right =>
      have blankBefore : Opens " " := by decide
      have blankAfter : Closes " " := by decide
      refine .close closing ?_
      rcases List.mem_pair.mp member with rfl | rfl
      · exact .ahead blankBefore (.ahead blankBefore (.lead opening _) _) _
      · exact .behind blankAfter _ _
  | conjunction parts =>
      have mark : Opens " \\<and> " ∧ Closes " \\<and> " := by decide
      rw [text, conjunctsText_eq_join]
      refine .close closing (.trans ?_ (.lead opening _))
      exact .join mark.1 mark.2 (List.mem_map_of_mem member)
  | conditional test first second =>
      have lead : Closes "(if " := by decide
      have thenMark : Opens " then " ∧ Closes " then " := by decide
      have elseMark : Opens " else " ∧ Closes " else " := by decide
      refine .close closing ?_
      simp only [components, List.mem_cons, List.not_mem_nil, or_false]
        at member
      rcases member with rfl | rfl | rfl
      · exact .ahead elseMark.1 (.ahead thenMark.1 (.lead lead _) _) _
      · exact .ahead elseMark.1 (.behind thenMark.2 _ _) _
      · exact .behind elseMark.2 _ _
  | update function argument value =>
      have openingAhead : Opens "(" := by decide
      have mark : Opens " := " ∧ Closes " := " := by decide
      have closings : Opens "))" := by decide
      refine .close closings ?_
      simp only [components, List.mem_cons, List.not_mem_nil, or_false]
        at member
      rcases member with rfl | rfl | rfl
      · exact .ahead mark.1 (.ahead openingAhead (.lead opening _) _) _
      · exact .ahead mark.1 (.behind opening _ _) _
      · exact .behind mark.2 _ _
  | constantFunction argumentType value =>
      have stop : Closes ". " := by decide
      refine .close closing ?_
      obtain rfl := List.mem_singleton.mp member
      exact .behind stop _ _
  | typed function arguments type =>
      have colons : Opens " :: " := by decide
      exact .close closing (.ahead colons (placedIn_argumentsText member _) _)
  | isIntegral number =>
      have lead : Closes "(of_int (floor " := by decide
      have equals : Opens ") = " := by decide
      obtain rfl := List.mem_singleton.mp member
      exact .close closing (.ahead equals (.lead lead _) _)
  | letIn equations body =>
      have lead : Closes "(let " := by decide
      have equals : Closes " = " := by decide
      have separator : Opens "; " ∧ Closes "; " := by decide
      have mark : Opens " in " ∧ Closes " in " := by decide
      rw [text, equationsText_eq_join]
      refine .close closing ?_
      rcases List.mem_append.mp member with inside | last
      · obtain ⟨⟨identifier, value⟩, equationMember, rfl⟩ :=
          List.mem_map.mp inside
        refine .ahead mark.1
          (.trans (.trans (.behind equals identifier _) ?_) (.lead lead _)) _
        exact .join separator.1 separator.2 (List.mem_map_of_mem equationMember)
      · obtain rfl := List.mem_singleton.mp last
        exact .behind mark.2 _ _
  | bound binder names body =>
      have stop : Closes ". " := by decide
      refine .close closing ?_
      obtain rfl := List.mem_singleton.mp member
      exact .behind stop _ _

/-- A part of a term stands in the text of the term. -/
theorem PartOf.placedIn (within : part.PartOf whole) :
    PlacedIn part.text whole.text := by
  induction within with
  | refl => exact .refl _
  | tail _ member inductionHypothesis =>
      exact inductionHypothesis.trans (placedIn_of_mem_components member)

end HolTerm

end ModelAudit
