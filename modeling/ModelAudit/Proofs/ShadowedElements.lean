import Mathlib.Data.List.Forall2
import Mathlib.Data.List.Induction
import ModelAudit.Proofs.Tables

/-!
# Shadowed elements

Elements of a list may bear names, and of several elements of one name the last
one counts. The list without the others has it at the place of the first one,
which is how a table is filled. A table that is filled with what is left of
pairs is the table that is filled with all of them.
-/

namespace ModelAudit

/-! ## Filling tables -/

namespace Table

variable {Value : Type} {table : Table Value} {pairs : List (Text × Value)}
  {name other : Text}

theorem insert_insert (table : Table Value) (name : Text)
    (first second : Value) :
    (table.insert name first).insert name second =
      table.insert name second := by
  induction table with
  | nil => simp [insert]
  | cons entry rest inductionHypothesis =>
      obtain ⟨key, old⟩ := entry
      by_cases same : key = name
      · simp [insert, same]
      · simp [insert, same, inductionHypothesis]

/-- A name that has its place may be written before or after another one. -/
theorem insert_comm (present : name ∈ table.names) (apart : other ≠ name)
    (value new : Value) :
    (table.insert other new).insert name value =
      (table.insert name value).insert other new := by
  induction table with
  | nil => cases present
  | cons entry rest inductionHypothesis =>
      obtain ⟨key, old⟩ := entry
      by_cases sameName : key = name
      · subst sameName
        simp [insert, apart.symm]
      · by_cases sameOther : key = other
        · subst sameOther
          simp [insert, apart]
        · have inRest :=
            (List.mem_cons.mp present).resolve_left (Ne.symm sameName)
          simp [insert, sameName, sameOther, inductionHypothesis inRest]

def insertAll (table : Table Value) (pairs : List (Text × Value)) :
    Table Value :=
  pairs.foldl (fun table (name, value) => table.insert name value) table

theorem ofPairs_append (pairs others : List (Text × Value)) :
    ofPairs (pairs ++ others) = (ofPairs pairs).insertAll others :=
  List.foldl_append

/-- Inserting other names does not interfere with changing the value of a
name. -/
theorem insertAll_insert (present : name ∈ table.names)
    (absent : name ∉ pairs.map Prod.fst) (value : Value) :
    (table.insert name value).insertAll pairs =
      (table.insertAll pairs).insert name value := by
  induction pairs generalizing table with
  | nil => rfl
  | cons pair pairs inductionHypothesis =>
      obtain ⟨other, new⟩ := pair
      rw [List.map_cons, List.mem_cons, not_or] at absent
      have kept : name ∈ (table.insert other new).names :=
        mem_names_insert.mpr (.inr present)
      have exchanged := insert_comm present (Ne.symm absent.1) value new
      calc ((table.insert name value).insert other new).insertAll pairs
          = ((table.insert other new).insert name value).insertAll pairs := by
            rw [exchanged]
        _ = ((table.insert other new).insertAll pairs).insert name value :=
            inductionHypothesis kept absent.2

theorem insertAll_of_insert {filled : Table Value} (nodup : filled.names.Nodup)
    (table : Table Value) (name : Text) (value : Value) :
    table.insertAll (filled.insert name value) =
      (table.insertAll filled).insert name value := by
  induction filled generalizing table with
  | nil => rfl
  | cons entry rest inductionHypothesis =>
      obtain ⟨key, old⟩ := entry
      obtain ⟨absent, nodup⟩ := List.nodup_cons.mp nodup
      by_cases same : key = name
      · subst same
        rw [insert, if_pos rfl]
        have present : key ∈ (table.insert key old).names :=
          mem_names_insert.mpr (.inl rfl)
        calc (table.insert key value).insertAll rest
            = ((table.insert key old).insert key value).insertAll rest := by
              rw [insert_insert]
          _ = ((table.insert key old).insertAll rest).insert key value :=
              insertAll_insert present absent value
      · rw [insert, if_neg same]
        exact inductionHypothesis nodup (table.insert key old)

/-- Pairs that are shadowed among themselves leave no trace in a table. -/
theorem insertAll_ofPairs (table : Table Value) (pairs : List (Text × Value)) :
    table.insertAll (ofPairs pairs) = table.insertAll pairs := by
  induction pairs using List.reverseRecOn with
  | nil => rfl
  | append_singleton pairs pair inductionHypothesis =>
      obtain ⟨name, value⟩ := pair
      calc table.insertAll (ofPairs (pairs ++ [(name, value)]))
          = table.insertAll ((ofPairs pairs).insert name value) := by
            rw [ofPairs_append]; rfl
        _ = (table.insertAll (ofPairs pairs)).insert name value :=
            insertAll_of_insert (nodup_names_ofPairs pairs) table name value
        _ = (table.insertAll pairs).insert name value := by
          rw [inductionHypothesis]
        _ = table.insertAll (pairs ++ [(name, value)]) := by
            rw [insertAll, insertAll, List.foldl_append]
            rfl

/-- What the values are, name by name, in a table that has each name once. -/
theorem map_values_of_nodup {Image : Type} (nodup : table.names.Nodup)
    (image : Value → Image) :
    table.values.map (fun value => some (image value)) =
      table.names.map fun name => (table.find? name).map image := by
  rw [values, names, List.map_map, List.map_map]
  refine List.map_congr_left fun entry member => ?_
  rw [Function.comp_apply, Function.comp_apply,
    (find?_eq_some_iff_of_nodup nodup).mpr member, Option.map_some]

end Table

/-! ## Lists with names -/

namespace Shadowing

variable {Element Other Image : Type} {name? : Element → Option Text}

/-- Puts the element at the place of the first one of its name, or at the
end. -/
def place (name? : Element → Option Text) : List Element → Element →
  List Element
  | [], element => [element]
  | first :: others, element =>
    if (name? element).isSome ∧ name? first = name? element
      then element :: others
    else first :: place name? others element

/-- The last element of each name at the place of the first one, among the
elements without a name. -/
def unshadowed (name? : Element → Option Text) (elements : List Element) :
    List Element :=
  elements.foldl (place name?) []

theorem unshadowed_append_singleton (elements : List Element)
    (element : Element) :
    unshadowed name? (elements ++ [element]) = place name?
      (unshadowed name? elements) element :=
  List.foldl_append

/-! What elements without a name say is said again. -/

/-- Placing an element puts elements without names at the end. -/
theorem filterMap_place {image : Element → Option Image}
    (nameless : ∀ element, (name? element).isSome → image element = none)
    (elements : List Element) (element : Element) :
    (place name? elements element).filterMap image =
      elements.filterMap image ++ (image element).toList := by
  induction elements with
  | nil => cases said : image element <;> simp [place, said]
  | cons first others inductionHypothesis =>
      rw [place]
      split
      · next same =>
        have firstSilent := nameless first (same.2 ▸ same.1)
        have silent := nameless element same.1
        simp [List.filterMap_cons_none, firstSilent, silent]
      · cases said : image first with
        | none =>
            rw [List.filterMap_cons_none said, List.filterMap_cons_none said,
              inductionHypothesis]
        | some value =>
            rw [List.filterMap_cons_some said, List.filterMap_cons_some said,
              inductionHypothesis, List.cons_append]

theorem filterMap_unshadowed {image : Element → Option Image}
    (nameless : ∀ element, (name? element).isSome → image element = none)
    (elements : List Element) :
    (unshadowed name? elements).filterMap image = elements.filterMap image := by
  induction elements using List.reverseRecOn with
  | nil => rfl
  | append_singleton elements element inductionHypothesis =>
      rw [unshadowed_append_singleton, filterMap_place nameless,
        inductionHypothesis, List.filterMap_append]
      cases said : image element <;> simp [said]

/-! What elements with a name say is said as in a table, if it depends on the
name whether they say anything. -/

section Pairs

variable {keep : Text → Bool} {pair? : Element → Option (Text × Image)}

/-- Placing an element inserts its pair into the table of all pairs. -/
theorem filterMap_pair_place
    (keyed : ∀ element, (pair? element).map Prod.fst =
      (name? element).filter keep)
    (elements : List Element) (element : Element) :
    (place name? elements element).filterMap pair? =
      Table.insertAll (elements.filterMap pair?) (pair? element).toList := by
  induction elements with
  | nil =>
    cases said : pair? element <;>
      simp [place, said, Table.insertAll, Table.insert]
  | cons first others inductionHypothesis =>
      rw [place]
      split
      · next same =>
        have sameKey :
            (pair? first).map Prod.fst = (pair? element).map Prod.fst := by
          rw [keyed, keyed, same.2]
        cases said : pair? element with
        | none =>
            rw [said] at sameKey
            have firstSilent := Option.map_eq_none_iff.mp sameKey
            rw [List.filterMap_cons_none said,
              List.filterMap_cons_none firstSilent]
            rfl
        | some pair =>
            rw [said] at sameKey
            obtain ⟨old, firstSaid, key⟩ := Option.map_eq_some_iff.mp sameKey
            rw [List.filterMap_cons_some said,
              List.filterMap_cons_some firstSaid]
            simp [Table.insertAll, Table.insert, key]
      · next differs =>
        cases firstSaid : pair? first with
        | none =>
            rw [List.filterMap_cons_none firstSaid,
              List.filterMap_cons_none firstSaid, inductionHypothesis]
        | some old =>
            rw [List.filterMap_cons_some firstSaid,
              List.filterMap_cons_some firstSaid, inductionHypothesis]
            cases said : pair? element with
            | none => rfl
            | some pair =>
                have named : name? element = some pair.fst := by
                  have key := keyed element
                  rw [said] at key
                  exact (Option.filter_eq_some_iff.mp key.symm).1
                have firstNamed : name? first = some old.fst := by
                  have key := keyed first
                  rw [firstSaid] at key
                  exact (Option.filter_eq_some_iff.mp key.symm).1
                have apart : old.fst ≠ pair.fst := fun same =>
                  differs ⟨by rw [named]; rfl, by rw [named, firstNamed, same]⟩
                simp [Table.insertAll, Table.insert, apart]

/-- The pairs of unshadowed elements are the table of all pairs. -/
theorem filterMap_pair_unshadowed
    (keyed : ∀ element, (pair? element).map Prod.fst =
      (name? element).filter keep)
    (elements : List Element) :
    (unshadowed name? elements).filterMap pair? = Table.ofPairs
      (elements.filterMap pair?) := by
  induction elements using List.reverseRecOn with
  | nil => rfl
  | append_singleton elements element inductionHypothesis =>
      rw [unshadowed_append_singleton, filterMap_pair_place keyed,
        inductionHypothesis, List.filterMap_append, Table.ofPairs_append]
      cases said : pair? element <;> simp [said]

/-- A table is filled alike with and without the shadowed elements. -/
theorem insertAll_unshadowed
    (keyed : ∀ element, (pair? element).map Prod.fst =
      (name? element).filter keep)
    (table : Table Image) (elements : List Element) :
    table.insertAll ((unshadowed name? elements).filterMap pair?) =
      table.insertAll (elements.filterMap pair?) := by
  rw [filterMap_pair_unshadowed keyed, Table.insertAll_ofPairs]

end Pairs

/-! Lists whose elements correspond to each other, name by name. -/

section Related

variable {otherName? : Other → Option Text} {related : Element → Other → Prop}
  {elements : List Element} {others : List Other}

theorem forall₂_place
    (named : ∀ element other, related element other →
      name? element = otherName? other)
    (pointwise : List.Forall₂ related elements others) {element : Element}
    {other : Other}
    (here : related element other) :
    List.Forall₂ related (place name? elements element)
      (place otherName? others other) := by
  induction pointwise with
  | nil => exact .cons here .nil
  | @cons first otherFirst _ _ firstRelated pointwise inductionHypothesis =>
      rw [place, place, named _ _ here, named _ _ firstRelated]
      split
      · exact .cons here pointwise
      · exact .cons firstRelated inductionHypothesis

theorem forall₂_unshadowed
    (named : ∀ element other, related element other →
      name? element = otherName? other)
    (pointwise : List.Forall₂ related elements others) :
    List.Forall₂ related (unshadowed name? elements)
      (unshadowed otherName? others) := by
  have folded {placed : List Element} {otherPlaced : List Other}
      (before : List.Forall₂ related placed otherPlaced) :
      List.Forall₂ related (elements.foldl (place name?) placed)
        (others.foldl (place otherName?) otherPlaced) := by
    induction pointwise generalizing placed otherPlaced with
    | nil => exact before
    | cons here _ inductionHypothesis =>
      exact inductionHypothesis (forall₂_place named before here)
  exact folded .nil

end Related

end Shadowing

end ModelAudit
