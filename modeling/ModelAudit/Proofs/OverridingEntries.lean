import ModelAudit.Proofs.OverrideShape
import ModelAudit.Proofs.SymbolGrowth
import ModelAudit.Proofs.Tables

/-!
# The entry that counts

Overrides are applied call after call, theory after theory and operator after
operator. An entry either disables an operator, which leaves everything else
that is recorded of it as it is, or writes a new record. Whatever the entries do
in turn, what is looked up in the end is decided by the last entry of the
operator alone, and the operators that can be looked up are always the same.
-/

namespace ModelAudit

/-! ## Records -/

/-- The ways to write an application. -/
inductive Form
  | infixed
  | prefixed
  | sectioned
  | templated
deriving DecidableEq

/-- All that is recorded of how an operator is written. -/
structure OperatorRecord where
  /-- The operator, the function or the template; null if the operator is
  disabled. -/
  symbol : Json
  form : Form
  associativity : Json
  chainable : Bool
  pairwise : Bool
  single : Option Template
  helpers : List Helper

def Associativity.name : Associativity → Text
  | left => "left"
  | right => "right"

def Spelling.record (spelling : Spelling) : OperatorRecord :=
  let (form, symbol) : Form × Text :=
    match spelling.fixity with
    | .infixed symbol => (.infixed, symbol)
    | .prefixed function => (.prefixed, function)
    | .sectioned symbol => (.sectioned, symbol)
    | .templated template => (.templated, template.text)
  ⟨.string symbol, form,
    (spelling.associativity.map fun side => Json.string side.name).getD .null,
    spelling.chainable, spelling.pairwise, spelling.single, spelling.helpers⟩

def Override.record (override : Override) : OperatorRecord :=
  ⟨override.symbol, .sectioned, override.associativity, override.chainable,
    false, none, []⟩

/-- What is found under an operator that is not disabled. -/
def SpellingEntry.record? : SpellingEntry → Option OperatorRecord
  | given spelling => some spelling.record
  | overridden override => some override.record
  | disabled => none

/-! ## Entries -/

namespace Json

/-- The members of an object; other values have none. -/
def fields : Json → List (Text × Json)
  | .object members => members
  | _ => []

theorem fields_of_not_isYes {json : Json} (silent : ¬json.isYes = true) :
    json.fields = [] := by
  cases json with
  | object members => simpa [isYes, fields] using silent
  | _ => rfl

def member (json : Json) (name : Text) : Json :=
  (Table.find? json.fields name).getD .null

end Json

namespace OperatorTable

def entries (overrides : Json) : List (Text × Json) :=
  (overrides.member "specs").fields.flatMap fun theory => theory.snd.fields

/-- The last entry of a name in all overrides that are applied one after the
other. -/
def latest? (calls : List Json) (name : Text) : Option Json :=
  Table.find? (calls.flatMap entries).reverse name

/-- Applies overrides one after the other, up to the first ones that cannot be
applied. -/
def applyAll (table : OperatorTable) : List Json →
  Option OverrideFault × OperatorTable
  | [] => (none, table)
  | overrides :: calls =>
    match table.applyOverrides overrides with
    | (none, later) => applyAll later calls
    | (some fault, later) => (some fault, later)

/-- What is recorded under a name, unless there is no operator of this name or
it is disabled. -/
def lookup (table : OperatorTable) (name : Text) :
    Except Unsupported OperatorRecord :=
  match (Operator.ofName? name).bind fun operator =>
    (table operator).record? with
  | none => .error ⟨name, "operator"⟩
  | some record => .ok record

theorem lookup_name (table : OperatorTable) (operator : Operator) :
    table.lookup operator.name =
      match (table operator).record? with
      | none => .error ⟨operator.name, "operator"⟩
      | some record => .ok record := by
  rw [lookup, Operator.ofName?_name, Option.bind_some]

/-- Nothing is found under a name that no operator has. -/
theorem lookup_of_not_mem {table : OperatorTable} {name : Text}
    (unknown : name ∉ Operator.all.map Operator.name) :
    table.lookup name = .error ⟨name, "operator"⟩ := by
  cases known : Operator.ofName? name with
  | none =>
      rw [lookup, known]
      rfl
  | some operator =>
      obtain rfl := Operator.name_of_ofName? known
      exact absurd (List.mem_map_of_mem (Operator.mem_all operator)) unknown

end OperatorTable

/-- What an entry makes of its operator. -/
def SpellingEntry.ofEntry (entry : Json) : SpellingEntry :=
  if (entry.member "mapsto").isNull then .disabled
  else
    .overridden ⟨entry.member "mapsto", entry.member "assoc",
      (entry.member "chainable").isYes⟩

namespace OperatorTable

/-- Applies one entry. -/
def update (table : OperatorTable) (entry : Text × Json) : OperatorTable :=
  match Operator.ofName? entry.fst with
  | none => table
  | some operator => table.set operator (.ofEntry entry.snd)

variable {table later : OperatorTable}

theorem fields_of_members {json : Json} {members : List (Text × Json)}
    (isObject : OperatorTable.members json = .ok members) :
    json.fields = members := by
  obtain rfl := members_eq_ok_iff.mp isObject
  rfl

theorem eq_ofEntry_of_readEntry {entry : Json} {spelling : SpellingEntry}
    (read : readEntry entry = .ok spelling) : spelling = .ofEntry entry := by
  obtain ⟨fields, isObject, made⟩ := Outcome.bind_eq_ok.mp read
  obtain rfl := members_eq_ok_iff.mp isObject
  have chainable : ((Table.find? fields "chainable").getD (.bool false)).isYes =
      ((Table.find? fields "chainable").getD .null).isYes := by
    cases Table.find? fields "chainable" <;> rfl
  rw [SpellingEntry.ofEntry, Json.member, Json.member, Json.member, Json.fields,
    ← chainable]
  dsimp only at made
  split at made
  · next isNull => rw [if_pos isNull, ← Except.ok.inj made]
  · next isSymbol => rw [if_neg isSymbol, ← Except.ok.inj made]

/-! ## One entry after the other -/

/-- Applied entries are updates, one after the other. -/
theorem eq_foldl_of_applyEntries {entries : List (Text × Json)}
    (applied : table.applyEntries entries = (none, later)) :
    later = entries.foldl update table := by
  induction entries generalizing table with
  | nil => exact (Prod.mk.inj applied).2.symm
  | cons first others inductionHypothesis =>
      obtain ⟨name, json⟩ := first
      rw [applyEntries] at applied
      rw [List.foldl_cons]
      split at applied
      · next unknown =>
        have kept : table.update (name, json) = table := by rw [update, unknown]
        rw [kept]
        exact inductionHypothesis applied
      · next operator known =>
        split at applied
        · next spelling read =>
          have written :
              table.update (name, json) = table.set operator spelling := by
            rw [update, known, eq_ofEntry_of_readEntry read]
          rw [written]
          exact inductionHypothesis applied
        · cases applied

/-- The entries of all theories are applied in the order in which they stand. -/
theorem eq_foldl_of_applyTheories {theories : List (Text × Json)}
    (applied : table.applyTheories theories = (none, later)) :
    later = (theories.flatMap fun theory => theory.snd.fields).foldl update
      table := by
  induction theories generalizing table with
  | nil => exact (Prod.mk.inj applied).2.symm
  | cons first others inductionHypothesis =>
      obtain ⟨name, json⟩ := first
      rw [applyTheories] at applied
      rw [List.flatMap_cons, List.foldl_append]
      split at applied
      · cases applied
      · next isObject =>
        rw [fields_of_members isObject]
        split at applied
        · next here =>
          rw [← eq_foldl_of_applyEntries here]
          exact inductionHypothesis applied
        · cases applied

/-- Overrides are applied entry by entry. -/
theorem eq_foldl_of_applyOverrides {overrides : Json}
    (applied : table.applyOverrides overrides = (none, later)) :
    later = (entries overrides).foldl update table := by
  rw [applyOverrides] at applied
  split at applied
  · cases applied
  · next members isObject =>
    obtain rfl := members_eq_ok_iff.mp isObject
    rw [entries, Json.member, Json.fields]
    dsimp only at applied
    split at applied
    · split at applied
      · cases applied
      · next areObject =>
        rw [fields_of_members areObject]
        exact eq_foldl_of_applyTheories applied
    · next silent =>
      rw [Json.fields_of_not_isYes silent]
      exact (Prod.mk.inj applied).2.symm

/-- Overrides in a row are applied as the list of all their entries. -/
theorem eq_foldl_of_applyAll {calls : List Json}
    (applied : table.applyAll calls = (none, later)) :
    later = (calls.flatMap entries).foldl update table := by
  induction calls generalizing table with
  | nil => exact (Prod.mk.inj applied).2.symm
  | cons overrides calls inductionHypothesis =>
      rw [applyAll] at applied
      rw [List.flatMap_cons, List.foldl_append]
      split at applied
      · next here =>
        rw [← eq_foldl_of_applyOverrides here]
        exact inductionHypothesis applied
      · cases applied

/-! ## The last entry -/

/-- An update concerns the operator of its name only. -/
theorem update_apply (table : OperatorTable) (entry : Text × Json)
    (operator : Operator) :
    table.update entry operator =
      if entry.fst = operator.name then .ofEntry entry.snd
        else table operator := by
  rw [update]
  cases known : Operator.ofName? entry.fst with
  | none =>
      have different : entry.fst ≠ operator.name := by
        intro same
        rw [same, Operator.ofName?_name] at known
        cases known
      rw [if_neg different]
  | some other =>
      dsimp only
      rw [set, ← Operator.name_of_ofName? known]
      simp only [Operator.name_injective.eq_iff, eq_comm]

/-- Of all entries of an operator the last one counts. -/
theorem foldl_update_apply (entries : List (Text × Json))
    (table : OperatorTable) (operator : Operator) :
    entries.foldl update table operator =
      ((Table.find? entries.reverse operator.name).map
          SpellingEntry.ofEntry).getD
        (table operator) := by
  induction entries generalizing table with
  | nil => rfl
  | cons first others inductionHypothesis =>
      rw [List.foldl_cons, inductionHypothesis, List.reverse_cons,
        Table.find?_append, update_apply]
      obtain ⟨name, json⟩ := first
      cases Table.find? others.reverse operator.name with
      | some last => rfl
      | none =>
          by_cases same : name = operator.name <;> simp [Table.find?, same]

end OperatorTable

/-! ## The register -/

/-- The records of all operators, disabled ones included, by name. -/
abbrev OperatorRegister := Table OperatorRecord

namespace OperatorRegister

def default : OperatorRegister :=
  Operator.all.map fun operator =>
    (operator.name, ((operator.defaultSpelling?.map Spelling.record).getD
      ⟨.null, .prefixed, .null, false, false, none, []⟩))

/-- What an entry makes of a record. Disabling an operator only takes its symbol
away. -/
def rewrite (old : OperatorRecord) (entry : Json) : OperatorRecord :=
  if (entry.member "mapsto").isNull then { old with symbol := .null }
  else
    ⟨entry.member "mapsto", .sectioned, entry.member "assoc",
      (entry.member "chainable").isYes, false, none, []⟩

/-- Applies an entry, unless nothing is recorded under its name. -/
def update (register : OperatorRegister) (entry : Text × Json) :
    OperatorRegister :=
  match Table.find? register entry.fst with
  | none => register
  | some old => Table.insert register entry.fst (rewrite old entry.snd)

/-- The register after overrides that are applied one after the other. -/
def after (calls : List Json) : OperatorRegister :=
  (calls.flatMap OperatorTable.entries).foldl update default

/-- What is recorded under a name, unless that is nothing or the operator is
disabled. -/
def lookup (register : OperatorRegister) (name : Text) :
    Except Unsupported OperatorRecord :=
  match Table.find? register name with
  | none => .error ⟨name, "operator"⟩
  | some record =>
    if record.symbol.isNull then .error ⟨name, "operator"⟩ else .ok record

variable {register : OperatorRegister} {table : OperatorTable}

/-- The register has all operators, and those that are not disabled are written
as in the table. -/
structure Mirrors (register : OperatorRegister) (table : OperatorTable) :
    Prop where
  names : register.names = Operator.all.map Operator.name
  records : ∀ operator : Operator, ∃ record,
    Table.find? register operator.name = some record ∧
      (table operator).record? = if record.symbol.isNull then none
        else some record

theorem mirrors_default : Mirrors default .default where
  names := by
    rw [default, Table.names, List.map_map]
    rfl
  records operator := by
    have nodup : (Table.names default).Nodup := by
      rw [default, Table.names, List.map_map]
      exact Operator.nodup_names
    refine ⟨_, (Table.find?_eq_some_iff_of_nodup nodup).mpr
      (List.mem_map_of_mem (Operator.mem_all operator)), ?_⟩
    rw [OperatorTable.default]
    cases known : operator.defaultSpelling? with
    | none => rfl
    | some spelling => rfl

theorem record?_ofEntry (old : OperatorRecord) (entry : Json) :
    (SpellingEntry.ofEntry entry).record? =
      if (rewrite old entry).symbol.isNull then none
        else some (rewrite old entry) := by
  rw [SpellingEntry.ofEntry, rewrite]
  split <;> rfl

/-- An update changes the register and the table in the same way. -/
theorem Mirrors.update (mirrors : Mirrors register table)
    (entry : Text × Json) :
    Mirrors (register.update entry) (table.update entry) where
  names := by
    rw [OperatorRegister.update]
    split
    · exact mirrors.names
    · next old found =>
      have member : entry.fst ∈ Table.names register :=
        List.mem_map_of_mem (Table.mem_of_find?_eq_some found)
      rw [Table.names_insert, if_pos member, mirrors.names]
  records operator := by
    obtain ⟨record, found, same⟩ := mirrors.records operator
    rw [OperatorTable.update_apply]
    by_cases named : entry.fst = operator.name
    · refine ⟨rewrite record entry.snd, ?_, ?_⟩
      · rw [OperatorRegister.update, named, found]
        dsimp only
        rw [Table.find?_insert, if_pos rfl]
      · rw [if_pos named, record?_ofEntry record]
    · refine ⟨record, ?_, ?_⟩
      · rw [OperatorRegister.update]
        split
        · exact found
        · rw [Table.find?_insert, if_neg named, found]
      · rw [if_neg named, same]

theorem Mirrors.foldl (mirrors : Mirrors register table)
    (entries : List (Text × Json)) :
    Mirrors (entries.foldl OperatorRegister.update register)
      (entries.foldl OperatorTable.update table) := by
  induction entries generalizing register table with
  | nil => exact mirrors
  | cons first others inductionHypothesis =>
    exact inductionHypothesis (mirrors.update first)

/-- The register and the table find the same under every name. -/
theorem Mirrors.lookup_eq (mirrors : Mirrors register table) (name : Text) :
    register.lookup name = table.lookup name := by
  rw [lookup]
  by_cases known : name ∈ Operator.all.map Operator.name
  · obtain ⟨operator, _, rfl⟩ := List.mem_map.mp known
    obtain ⟨record, found, same⟩ := mirrors.records operator
    rw [OperatorTable.lookup_name, found, same]
    dsimp only
    split <;> rfl
  · have absent : Table.find? register name = none := by
      rwa [Table.find?_eq_none_iff, mirrors.names]
    rw [OperatorTable.lookup_of_not_mem known, absent]

end OperatorRegister

namespace OperatorTable

/-- Whatever overrides are applied one after the other, the operators stay the
same ones, and each is written as its last entry says, or by default if it has
none. An operator whose last entry has no symbol is not found. Any other
operator with an entry is found as a parenthesised operator with what this entry
says, whatever came before. -/
theorem lookup_lastEntry {calls : List Json} {table : OperatorTable}
    (applied : OperatorTable.default.applyAll calls = (none, table)) :
    ((OperatorRegister.after calls).names = Operator.all.map Operator.name ∧
      ∀ name, (OperatorRegister.after calls).lookup name = table.lookup name) ∧
      (∀ operator : Operator, table operator =
        ((latest? calls operator.name).map SpellingEntry.ofEntry).getD
          (OperatorTable.default operator)) ∧
      (∀ name, latest? calls name = none →
        table.lookup name = OperatorTable.default.lookup name) ∧
      (∀ name ∉ Operator.all.map Operator.name,
        table.lookup name = .error ⟨name, "operator"⟩) ∧
      ∀ name ∈ Operator.all.map Operator.name, ∀ entry, latest? calls name =
          some entry →
        ((entry.member "mapsto").isNull = true →
          table.lookup name = .error ⟨name, "operator"⟩) ∧
          ((entry.member "mapsto").isNull = false →
            table.lookup name = .ok ⟨entry.member "mapsto", .sectioned,
              entry.member "assoc",
              (entry.member "chainable").isYes, false, none, []⟩) := by
  have isFold := eq_foldl_of_applyAll applied
  have mirrors : OperatorRegister.Mirrors (.after calls) table :=
    isFold ▸ OperatorRegister.mirrors_default.foldl (calls.flatMap entries)
  have decided (operator : Operator) :
      table operator =
        ((latest? calls operator.name).map SpellingEntry.ofEntry).getD
        (OperatorTable.default operator) := by
    rw [isFold, foldl_update_apply, latest?]
  refine ⟨⟨mirrors.names, mirrors.lookup_eq⟩, decided,
    fun name unmentioned => ?_, fun name unknown => lookup_of_not_mem unknown,
    fun name known entry isLast => ?_⟩
  · by_cases known : name ∈ Operator.all.map Operator.name
    · obtain ⟨operator, _, rfl⟩ := List.mem_map.mp known
      rw [lookup_name, lookup_name, decided, unmentioned, Option.map_none,
        Option.getD_none]
    · rw [lookup_of_not_mem known, lookup_of_not_mem known]
  · obtain ⟨operator, _, rfl⟩ := List.mem_map.mp known
    rw [lookup_name, decided, isLast, Option.map_some, Option.getD_some,
      SpellingEntry.ofEntry]
    constructor
    · intro isNull
      rw [if_pos isNull]
      rfl
    · intro isSymbol
      rw [if_neg (Bool.eq_false_iff.mp isSymbol)]
      rfl

/-- Products are disabled, written, disabled again and written again. Sums are
written and then disabled. One entry is about an operator that nobody knows. -/
def alternatingOverrides : List Json :=
  [.object [("specs", .object
      [("Ints", .object [("*", .object []),
        ("+", .object [("mapsto", .string "plus")]), ("fp.add", .null)]),
      ("Reals", .object
        [("*", .object [("mapsto", .string "times"),
          ("assoc", .string "right")]),
        ("+", .object [("mapsto", .null), ("chainable", .bool true)])])])],
    .object [("specs", .object
      [("Ints", .object [("*", .object [("mapsto", .null)])]),
      ("Reals", .object
        [("*", .object [("mapsto", .string "mult"),
          ("chainable", .string "no")])])])]]

theorem alternatingOverrides_lookup :
    OperatorTable.default.applyAll alternatingOverrides =
        (none, (OperatorTable.default.applyAll alternatingOverrides).snd) ∧
      (OperatorTable.default.applyAll alternatingOverrides).snd.lookup "*" =
        .ok ⟨.string "mult", .sectioned, .null, true, false, none, []⟩ ∧
      (OperatorTable.default.applyAll alternatingOverrides).snd.lookup "+" =
        .error ⟨"+", "operator"⟩ ∧
      (OperatorTable.default.applyAll alternatingOverrides).snd.lookup "-" =
        OperatorTable.default.lookup "-" := by
  have applied : OperatorTable.default.applyAll alternatingOverrides =
      (none, (OperatorTable.default.applyAll alternatingOverrides).snd) :=
    Prod.ext (by decide +kernel) rfl
  obtain ⟨_, _, unmentioned, _, mentioned⟩ := lookup_lastEntry applied
  refine ⟨applied, ?_, ?_, unmentioned _ rfl⟩
  · exact (mentioned "*" (by decide +kernel) _ rfl).2 (by decide +kernel)
  · exact (mentioned "+" (by decide +kernel) _ rfl).1 (by decide +kernel)

end OperatorTable

end ModelAudit
