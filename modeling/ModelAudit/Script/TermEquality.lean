import ModelAudit.Script.Term

/-!
# Equality of terms is decidable

Terms are compared structurally, through their lists of arguments and bindings.
-/

namespace ModelAudit.Term

mutual

def decideEq : (left right : Term) → Decidable (left = right)
  | literal value, right =>
    match right with
    | literal other =>
      decidable_of_iff (value = other) ⟨fun equal => equal ▸ rfl,
        fun equal => by cases equal; rfl⟩
    | symbol .. | functionArray .. | application .. | letIn .. | quantified ..
    | annotated .. => isFalse nofun
  | symbol name sort, right =>
    match right with
    | symbol otherName otherSort =>
      decidable_of_iff (name = otherName ∧ sort = otherSort)
        ⟨fun ⟨names, sorts⟩ => by rw [names, sorts],
          fun equal => by cases equal; exact ⟨rfl, rfl⟩⟩
    | literal .. | functionArray .. | application .. | letIn .. | quantified ..
    | annotated .. => isFalse nofun
  | functionArray function index element, right =>
    match right with
    | functionArray otherFunction otherIndex otherElement =>
      decidable_of_iff (function = otherFunction ∧ index = otherIndex ∧
        element = otherElement)
        ⟨fun ⟨functions, indices, elements⟩ => by
          rw [functions, indices, elements],
          fun equal => by cases equal; exact ⟨rfl, rfl, rfl⟩⟩
    | literal .. | symbol .. | application .. | letIn .. | quantified ..
    | annotated .. => isFalse nofun
  | application head indices arguments sort, right =>
    match right with
    | application otherHead otherIndices otherArguments otherSort =>
      have : Decidable (arguments = otherArguments) :=
        decideEqAll arguments otherArguments
      decidable_of_iff
        (head = otherHead ∧ indices = otherIndices ∧
          arguments = otherArguments ∧
          sort = otherSort)
        ⟨fun ⟨heads, indices, arguments, sorts⟩ => by
          rw [heads, indices, arguments, sorts],
          fun equal => by cases equal; exact ⟨rfl, rfl, rfl, rfl⟩⟩
    | literal .. | symbol .. | functionArray .. | letIn .. | quantified ..
    | annotated .. => isFalse nofun
  | letIn bindings body, right =>
    match right with
    | letIn otherBindings otherBody =>
      have : Decidable (bindings = otherBindings) :=
        decideEqBindings bindings otherBindings
      have : Decidable (body = otherBody) := decideEq body otherBody
      decidable_of_iff (bindings = otherBindings ∧ body = otherBody)
        ⟨fun ⟨bindings, bodies⟩ => by rw [bindings, bodies],
          fun equal => by cases equal; exact ⟨rfl, rfl⟩⟩
    | literal .. | symbol .. | functionArray .. | application .. | quantified ..
    | annotated .. => isFalse nofun
  | quantified quantifier binders body, right =>
    match right with
    | quantified otherQuantifier otherBinders otherBody =>
      have : Decidable (body = otherBody) := decideEq body otherBody
      decidable_of_iff
        (quantifier = otherQuantifier ∧ binders = otherBinders ∧
          body = otherBody)
        ⟨fun ⟨quantifiers, binders, bodies⟩ => by
          rw [quantifiers, binders, bodies],
          fun equal => by cases equal; exact ⟨rfl, rfl, rfl⟩⟩
    | literal .. | symbol .. | functionArray .. | application .. | letIn ..
    | annotated .. => isFalse nofun
  | annotated term attributes, right =>
    match right with
    | annotated otherTerm otherAttributes =>
      have : Decidable (term = otherTerm) := decideEq term otherTerm
      decidable_of_iff (term = otherTerm ∧ attributes = otherAttributes)
        ⟨fun ⟨terms, attributes⟩ => by rw [terms, attributes],
          fun equal => by cases equal; exact ⟨rfl, rfl⟩⟩
    | literal .. | symbol .. | functionArray .. | application .. | letIn ..
    | quantified .. => isFalse nofun

def decideEqAll : (left right : List Term) → Decidable (left = right)
  | [], [] => isTrue rfl
  | [], _ :: _ => isFalse nofun
  | _ :: _, [] => isFalse nofun
  | left :: lefts, right :: rights =>
    have : Decidable (left = right) := decideEq left right
    have : Decidable (lefts = rights) := decideEqAll lefts rights
    decidable_of_iff (left = right ∧ lefts = rights) (List.cons_eq_cons).symm

def decideEqBindings : (left right : List (Text × Term)) →
  Decidable (left = right)
  | [], [] => isTrue rfl
  | [], _ :: _ => isFalse nofun
  | _ :: _, [] => isFalse nofun
  | (leftName, left) :: lefts, (rightName, right) :: rights =>
    have : Decidable (left = right) := decideEq left right
    have : Decidable (lefts = rights) := decideEqBindings lefts rights
    decidable_of_iff (leftName = rightName ∧ left = right ∧ lefts = rights)
      (by rw [List.cons_eq_cons, Prod.mk.injEq, and_assoc])

end

instance : DecidableEq Term := decideEq

end ModelAudit.Term
