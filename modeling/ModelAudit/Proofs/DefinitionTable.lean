import Mathlib.Data.List.Perm.Basic
import ModelAudit.Proofs.Tables
import ModelAudit.Script.Symbols

/-!
# Tables of definitions

Of several definitions of a name the last one counts. The table of definitions
holds it, and so do the definitions in effect.
-/

namespace ModelAudit

/-- The definitions by their names; the last one of each name counts. -/
def definitionTable (definitions : List Definition) : Table Definition :=
  Table.ofPairs
    (definitions.map fun definition => (definition.name, definition))

section Definitions

variable {definitions : List Definition} {definition : Definition} {name : Text}

theorem definition_of_find?
    (found : (definitionTable definitions).find? name = some definition) :
    definition ∈ definitions ∧ definition.name = name := by
  rw [definitionTable, Table.find?_ofPairs] at found
  have member := List.mem_reverse.mp (Table.mem_of_find?_eq_some found)
  obtain ⟨other, inside, same⟩ := List.mem_map.mp member
  obtain ⟨rfl, rfl⟩ := Prod.mk.inj same
  exact ⟨inside, rfl⟩

/-- A definition is in effect exactly if its name is found under it. -/
theorem mem_effectiveDefinitions :
    definition ∈ effectiveDefinitions definitions ↔
      (definitionTable definitions).find? definition.name =
        some definition := by
  have nodup : (definitionTable definitions).names.Nodup :=
    Table.nodup_names_ofPairs _
  constructor
  · intro member
    obtain ⟨⟨name, other⟩, inside, rfl⟩ := List.mem_map.mp member
    have found := (Table.find?_eq_some_iff_of_nodup nodup).mpr inside
    rwa [(definition_of_find? found).2]
  · exact fun found => List.mem_map_of_mem (Table.mem_of_find?_eq_some found)

theorem names_effectiveDefinitions :
    (effectiveDefinitions definitions).map Definition.name =
      (definitionTable definitions).names := by
  have nodup : (definitionTable definitions).names.Nodup :=
    Table.nodup_names_ofPairs _
  rw [effectiveDefinitions, Table.values, Table.names, List.map_map]
  apply List.map_congr_left
  rintro ⟨name, definition⟩ member
  exact (definition_of_find?
    ((Table.find?_eq_some_iff_of_nodup nodup).mpr member)).2

/-- The definitions in effect have the table of all definitions. -/
theorem find?_definitionTable_effectiveDefinitions :
    (definitionTable (effectiveDefinitions definitions)).find? name =
      (definitionTable definitions).find? name := by
  ext definition
  constructor
  · intro found
    obtain ⟨member, rfl⟩ := definition_of_find? found
    exact mem_effectiveDefinitions.mp member
  · intro found
    obtain ⟨_, rfl⟩ := definition_of_find? found
    have member := mem_effectiveDefinitions.mpr found
    have nodup :
        ((effectiveDefinitions definitions).map Definition.name).Nodup := by
      rw [names_effectiveDefinitions]
      exact Table.nodup_names_ofPairs _
    rw [definitionTable, Table.find?_ofPairs]
    apply (Table.find?_eq_some_iff_of_nodup ?_).mpr
    · exact List.mem_reverse.mpr (List.mem_map_of_mem member)
    · simpa [Table.names, Function.comp_def] using nodup

theorem definitionTable_append_singleton (definitions : List Definition)
    (definition : Definition) :
    definitionTable (definitions ++ [definition]) =
      (definitionTable definitions).insert definition.name definition := by
  rw [definitionTable, List.map_append, Table.ofPairs, List.foldl_append]
  rfl

theorem find?_definitionTable_append (left right : List Definition)
    (name : Text) :
    (definitionTable (left ++ right)).find? name =
      ((definitionTable right).find? name).or
        ((definitionTable left).find? name) := by
  simp only [definitionTable, Table.find?_ofPairs, List.map_append,
    List.reverse_append, Table.find?_append]

theorem find?_definitionTable_eq_none :
    (definitionTable definitions).find? name = none ↔
      name ∉ definitions.map Definition.name := by
  rw [definitionTable, Table.find?_ofPairs, Table.find?_eq_none_iff]
  simp [Table.names]

/-- Of each name one definition is in effect, at most. -/
theorem filter_effectiveDefinitions (definitions : List Definition)
    (name : Text) :
    ((effectiveDefinitions definitions).filter fun definition =>
      definition.name = name) =
      ((definitionTable definitions).find? name).toList := by
  have nodup : (effectiveDefinitions definitions).Nodup := by
    apply List.Nodup.of_map Definition.name
    rw [names_effectiveDefinitions]
    exact Table.nodup_names_ofPairs _
  have same (definition : Definition) :
      definition ∈ (effectiveDefinitions definitions).filter
        (fun other => other.name = name) ↔
        (definitionTable definitions).find? name = some definition := by
    rw [List.mem_filter, mem_effectiveDefinitions, decide_eq_true_iff]
    constructor
    · rintro ⟨found, rfl⟩
      exact found
    · intro found
      obtain ⟨_, rfl⟩ := definition_of_find? found
      exact ⟨found, rfl⟩
  cases found : (definitionTable definitions).find? name with
  | none =>
      rw [Option.toList_none, List.eq_nil_iff_forall_not_mem]
      intro definition member
      rw [same, found] at member
      cases member
  | some definition =>
      rw [Option.toList_some, ← List.perm_singleton,
        List.perm_ext_iff_of_nodup (nodup.filter _) (List.nodup_singleton _)]
      intro other
      rw [same, found, Option.some.injEq, List.mem_singleton, eq_comm]

/-- The definition is the last one of its name. -/
def Definition.IsLastIn (definition : Definition)
    (definitions : List Definition) : Prop :=
  ∃ before after, definitions = before ++ definition :: after ∧
    definition.name ∉ after.map Definition.name

theorem Definition.IsLastIn.find? (isLast : definition.IsLastIn definitions) :
    (definitionTable definitions).find? definition.name = some definition := by
  obtain ⟨before, after, rfl, absent⟩ := isLast
  rw [← List.singleton_append, ← List.append_assoc,
    find?_definitionTable_append, find?_definitionTable_eq_none.mpr absent,
    Option.none_or, definitionTable_append_singleton, Table.find?_insert,
    if_pos rfl]

/-- Of every name that is defined there is a last definition. -/
theorem exists_isLastIn (member : name ∈ definitions.map Definition.name) :
    ∃ definition : Definition, definition.IsLastIn definitions ∧
      definition.name = name := by
  induction definitions with
  | nil => cases member
  | cons first others inductionHypothesis =>
      by_cases later : name ∈ others.map Definition.name
      · obtain ⟨definition, ⟨before, after, rfl, absent⟩, named⟩ :=
          inductionHypothesis later
        exact ⟨definition, ⟨first :: before, after, rfl, absent⟩, named⟩
      · obtain rfl := (List.mem_cons.mp member).resolve_right later
        exact ⟨first, ⟨[], others, rfl, later⟩, rfl⟩

end Definitions

end ModelAudit
