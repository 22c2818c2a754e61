import ModelAudit.Proofs.Outcome
import ModelAudit.Theory.Root

/-!
# The shape of operator overrides

Overrides can be applied if and only if they are an object of objects of objects
as far as anything in them is looked at: entries of operators that nobody knows
may be anything, and so may everything beside the member with the entries.
-/

namespace ModelAudit

def Json.IsObject (json : Json) : Prop :=
  ∃ members, json = .object members

namespace OperatorTable

/-- The entries of one theory are an object, in which each known operator has an
object. -/
def WellShapedEntries (entries : Json) : Prop :=
  ∃ members, entries = .object members ∧
    ∀ entry ∈ members, (Operator.ofName? entry.fst).isSome = true →
      entry.snd.IsObject

/-- The overrides are an object, and if it says anything under `specs`, then an
object with the entries of each theory. -/
def WellShaped (overrides : Json) : Prop :=
  ∃ members, overrides = .object members ∧
    (((Table.find? members "specs").getD .null).isYes = true →
      ∃ theories, (Table.find? members "specs").getD .null = .object theories ∧
        ∀ theory ∈ theories, WellShapedEntries theory.snd)

variable {table : OperatorTable}

theorem members_eq_ok_iff {json : Json} {fields : List (Text × Json)} :
    members json = .ok fields ↔ json = .object fields := by
  cases json with
  | object members => simp [OperatorTable.members]
  | _ => simp [OperatorTable.members]

theorem exists_readEntry_iff {entry : Json} :
    (∃ spelling, readEntry entry = .ok spelling) ↔ entry.IsObject := by
  constructor
  · rintro ⟨spelling, read⟩
    obtain ⟨fields, isObject, _⟩ := Outcome.bind_eq_ok.mp read
    exact ⟨fields, members_eq_ok_iff.mp isObject⟩
  · rintro ⟨fields, rfl⟩
    rw [readEntry, members_eq_ok_iff.mpr rfl, Outcome.ok_bind]
    dsimp only
    split
    · exact ⟨_, rfl⟩
    · exact ⟨_, rfl⟩

/-- Entries are applied without fault if and only if those of known operators
are objects. -/
theorem applyEntries_fst_eq_none_iff {entries : List (Text × Json)} :
    (table.applyEntries entries).fst = none ↔
      ∀ entry ∈ entries, (Operator.ofName? entry.fst).isSome = true →
        entry.snd.IsObject := by
  induction entries generalizing table with
  | nil => exact iff_of_true rfl (List.forall_mem_nil _)
  | cons first others inductionHypothesis =>
      obtain ⟨name, json⟩ := first
      rw [applyEntries, List.forall_mem_cons]
      split
      next unknown => simp [unknown, inductionHypothesis]
      next operator known =>
      have isKnown : (Operator.ofName? name).isSome = true := by
        rw [known, Option.isSome_some]
      split
      next entry read =>
        have isObject : json.IsObject := exists_readEntry_iff.mp ⟨entry, read⟩
        simp [isObject, inductionHypothesis]
      next fault failed =>
        have shapeless : ¬json.IsObject := by
          intro isObject
          obtain ⟨entry, read⟩ := exists_readEntry_iff.mpr isObject
          rw [failed] at read
          cases read
        simp [shapeless, isKnown]

/-- Overrides are applied without fault exactly if all entries have the right
shape. -/
theorem applyTheories_fst_eq_none_iff {theories : List (Text × Json)} :
    (table.applyTheories theories).fst = none ↔
      ∀ theory ∈ theories, WellShapedEntries theory.snd := by
  induction theories generalizing table with
  | nil => exact iff_of_true rfl (List.forall_mem_nil _)
  | cons first others inductionHypothesis =>
      obtain ⟨name, json⟩ := first
      rw [applyTheories, List.forall_mem_cons]
      split
      next fault failed =>
        have shapeless : ¬WellShapedEntries json := by
          rintro ⟨entries, isObject, _⟩
          rw [members_eq_ok_iff.mpr isObject] at failed
          cases failed
        simp [shapeless]
      next entries isObject =>
      have shaped_iff : WellShapedEntries json ↔
          (table.applyEntries entries).fst = none := by
        rw [applyEntries_fst_eq_none_iff]
        obtain rfl := members_eq_ok_iff.mp isObject
        simp [WellShapedEntries]
      split
      next later applied =>
        rw [applied] at shaped_iff
        simp [shaped_iff, inductionHypothesis]
      next fault later applied =>
        rw [applied] at shaped_iff
        simp [shaped_iff]

/-- Overrides are applied without fault if and only if they are well shaped. -/
theorem applyOverrides_fst_eq_none_iff {overrides : Json} :
    (table.applyOverrides overrides).fst = none ↔ WellShaped overrides := by
  rw [applyOverrides]
  split
  next fault failed =>
    have shapeless : ¬WellShaped overrides := by
      rintro ⟨fields, isObject, _⟩
      rw [members_eq_ok_iff.mpr isObject] at failed
      cases failed
    simp [shapeless]
  next fields isObject =>
  obtain rfl := members_eq_ok_iff.mp isObject
  have shaped_iff : WellShaped (.object fields) ↔
      (((Table.find? fields "specs").getD .null).isYes = true →
        ∃ theories, (Table.find? fields "specs").getD .null = .object theories ∧
          ∀ theory ∈ theories, WellShapedEntries theory.snd) := by
    simp [WellShaped]
  rw [shaped_iff]
  dsimp only
  split
  next given =>
    split
    next fault failed =>
      have shapeless :
          ¬∃ theories, (Table.find? fields "specs").getD .null =
            .object theories ∧
          ∀ theory ∈ theories, WellShapedEntries theory.snd := by
        rintro ⟨theories, areObject, _⟩
        rw [members_eq_ok_iff.mpr areObject] at failed
        cases failed
      simp only [given, shapeless, reduceCtorEq, forall_const]
    next theories areObject =>
      rw [applyTheories_fst_eq_none_iff, members_eq_ok_iff.mp areObject]
      simp [members_eq_ok_iff.mp areObject ▸ given]
  next silent => simp [silent]

end OperatorTable

namespace TheoryRoot

open OperatorTable

variable {root : TheoryRoot}

theorem exists_unreadable_iff :
    (∃ path, root.operators = .error (.unreadable path)) ↔
      ∃ bytes, root.overrides = some bytes ∧ readJson? bytes = none := by
  unfold operators
  split
  next absent => simp [absent]
  next bytes present =>
  split
  next unreadable => simp [present, unreadable]
  next json isRead =>
  split <;> simp [present, isRead]

/-- A file that holds JSON gives no spellings if and only if the overrides in it
are not well shaped. -/
theorem exists_malformed_iff :
    (∃ fault, root.operators = .error (.malformed fault)) ↔
      ∃ bytes json, root.overrides = some bytes ∧ readJson? bytes = some json ∧
        ¬WellShaped json := by
  unfold operators
  split
  next absent => simp [absent]
  next bytes present =>
  split
  next unreadable => simp [present, unreadable]
  next json isRead =>
  have shaped_iff : WellShaped json ↔
    (OperatorTable.default.applyOverrides json).fst = none :=
    applyOverrides_fst_eq_none_iff.symm
  split
  next table applied => simp [present, isRead, shaped_iff, applied]
  next fault table applied =>
    refine iff_of_true ⟨fault, rfl⟩ ⟨bytes, json, present, isRead, ?_⟩
    simp [shaped_iff, applied]

end TheoryRoot

end ModelAudit
