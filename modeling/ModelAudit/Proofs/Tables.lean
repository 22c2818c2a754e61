import Mathlib.Data.List.Nodup
import ModelAudit.Table

/-!
# Lookup in tables

What insertion and concatenation do to the entries of a table and to its names.
-/

namespace ModelAudit.Table

variable {Value : Type}

theorem find?_append (left right : Table Value) (name : Text) :
    Table.find? (left ++ right) name = (left.find? name).or
      (right.find? name) := by
  induction left with
  | nil => simp [find?]
  | cons entry rest inductionHypothesis =>
      obtain ⟨key, value⟩ := entry
      by_cases sameKey : key = name
      · simp [find?, sameKey]
      · simpa [find?, sameKey] using inductionHypothesis

theorem find?_eq_none_iff {table : Table Value} {name : Text} :
    table.find? name = none ↔ name ∉ table.names := by
  induction table with
  | nil => simp [find?, names]
  | cons entry rest inductionHypothesis =>
      obtain ⟨key, value⟩ := entry
      by_cases sameKey : key = name
      · simp [find?, names, sameKey]
      · simpa [find?, names, sameKey, Ne.symm sameKey] using inductionHypothesis

theorem mem_of_find?_eq_some {table : Table Value} {name : Text} {value : Value}
    (found : table.find? name = some value) :
    (name, value) ∈ table := by
  induction table with
  | nil => simp [find?] at found
  | cons entry rest inductionHypothesis =>
      obtain ⟨key, old⟩ := entry
      by_cases sameKey : key = name
      · have sameValue : old = value := by simpa [find?, sameKey] using found
        simp [sameKey, sameValue]
      · have inRest : Table.find? rest name = some value := by
          simpa [find?, sameKey] using found
        exact List.mem_cons_of_mem _ (inductionHypothesis inRest)

/-- Inserting pairs one after the other has the effect of putting them in front,
the last one first. -/
theorem find?_foldl_insert (pairs : List (Text × Value)) (table : Table Value)
    (name : Text) :
    (pairs.foldl (fun table (key, value) => table.insert key value) table).find?
        name =
      Table.find? (pairs.reverse ++ table) name := by
  induction pairs generalizing table with
  | nil => rfl
  | cons pair rest inductionHypothesis =>
      obtain ⟨key, value⟩ := pair
      rw [List.foldl_cons, inductionHypothesis, find?_append, find?_insert,
        List.reverse_cons, List.append_assoc, find?_append]
      by_cases sameKey : key = name
      · simp [find?, sameKey]
      · simp [find?, sameKey]

/-- Inserting adds the name and no other. -/
theorem mem_names_insert {table : Table Value} {name other : Text}
    {value : Value} :
    other ∈ (table.insert name value).names ↔
      other = name ∨ other ∈ table.names := by
  rw [names_insert]
  split
  · constructor
    · exact .inr
    · rintro (rfl | member)
      · assumption
      · exact member
  · rw [List.mem_append, List.mem_singleton, or_comm]

theorem find?_ofPairs (pairs : List (Text × Value)) (name : Text) :
    (Table.ofPairs pairs).find? name = Table.find? pairs.reverse name := by
  rw [ofPairs, find?_foldl_insert, List.append_nil]

theorem find?_map {Other : Type} (image : Value → Other) (table : Table Value)
    (name : Text) :
    Table.find? (table.map (Prod.map id image)) name =
      (table.find? name).map image := by
  induction table with
  | nil => rfl
  | cons entry rest inductionHypothesis =>
      obtain ⟨key, value⟩ := entry
      by_cases same : key = name
      · simp [find?, same]
      · simpa [find?, same] using inductionHypothesis

/-- The values of a table that pairs names with values as they come. -/
theorem find?_zip_map {Other : Type} (image : Value → Other) (names : List Text)
    (values : List Value) (name : Text) :
    (ofPairs (names.zip (values.map image))).find? name =
      ((ofPairs (names.zip values)).find? name).map image := by
  have paired :
      names.zip (values.map image) = (names.zip values).map
        (Prod.map id image) := by
    rw [List.zip_map_right]
  rw [find?_ofPairs, find?_ofPairs, paired, ← List.map_reverse, find?_map]

theorem find?_zip_eq_none_iff {names : List Text} {values : List Value}
    (lengths : names.length = values.length) {name : Text} :
    (ofPairs (names.zip values)).find? name = none ↔ name ∉ names := by
  rw [find?_ofPairs, find?_eq_none_iff, Table.names, List.map_reverse,
    List.map_fst_zip (Nat.le_of_eq lengths), List.mem_reverse]

theorem mem_of_find?_zip {names : List Text} {values : List Value} {name : Text}
    {value : Value}
    (found : (ofPairs (names.zip values)).find? name = some value) :
    value ∈ values := by
  rw [find?_ofPairs] at found
  exact (List.of_mem_zip (List.mem_reverse.mp (mem_of_find?_eq_some found))).2

theorem nodup_names_insert {table : Table Value} (nodup : table.names.Nodup)
    (name : Text) (value : Value) :
    (table.insert name value).names.Nodup := by
  rw [names_insert]
  split
  · exact nodup
  · next absent =>
    refine List.nodup_append.mpr ⟨nodup, List.nodup_singleton name, ?_⟩
    intro other member added inside same
    obtain rfl := List.mem_singleton.mp inside
    exact absent (same ▸ member)

/-- Insertion keeps the places of all names. -/
theorem getElem?_insert {table : Table Value} {place : Nat} {key : Text}
    {old : Value} (placed : table[place]? = some (key, old)) (name : Text)
    (value : Value) :
    ∃ new, (table.insert name value)[place]? = some (key, new) ∧
      (new = old ∨ key = name ∧ new = value) := by
  induction table generalizing place with
  | nil => cases placed
  | cons entry rest inductionHypothesis =>
      obtain ⟨first, present⟩ := entry
      rw [insert]
      cases place with
      | zero =>
          obtain ⟨rfl, rfl⟩ := Prod.mk.inj (Option.some.inj placed)
          split
          · next same => exact ⟨value, rfl, .inr ⟨same, rfl⟩⟩
          · exact ⟨_, rfl, .inl rfl⟩
      | succ place =>
          split
          · exact ⟨old, placed, .inl rfl⟩
          · exact inductionHypothesis placed

theorem nodup_names_ofPairs (pairs : List (Text × Value)) :
    (ofPairs pairs).names.Nodup := by
  have inserted (table : Table Value) (nodup : table.names.Nodup) :
      (pairs.foldl (fun table (name, value) => table.insert name value)
        table).names.Nodup := by
    induction pairs generalizing table with
    | nil => exact nodup
    | cons pair pairs inductionHypothesis =>
        exact inductionHypothesis _ (nodup_names_insert nodup pair.fst pair.snd)
  exact inserted [] List.nodup_nil

/-- If all names are different, what is found is what the table holds. -/
theorem find?_eq_some_iff_of_nodup {table : Table Value}
    (nodup : table.names.Nodup) {name : Text} {value : Value} :
    table.find? name = some value ↔ (name, value) ∈ table := by
  refine ⟨mem_of_find?_eq_some, fun member => ?_⟩
  induction table with
  | nil => cases member
  | cons entry rest inductionHypothesis =>
      obtain ⟨key, old⟩ := entry
      obtain ⟨absent, nodupRest⟩ := List.nodup_cons.mp nodup
      rcases List.mem_cons.mp member with same | inside
      · obtain ⟨rfl, rfl⟩ := Prod.mk.inj same
        simp [find?]
      · have different : key ≠ name := by
          rintro rfl
          exact absent (List.mem_map.mpr ⟨_, inside, rfl⟩)
        simpa [find?, different] using inductionHypothesis nodupRest inside

end ModelAudit.Table
