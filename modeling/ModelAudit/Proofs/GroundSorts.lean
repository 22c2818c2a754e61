import ModelAudit.Proofs.Outcome
import ModelAudit.Proofs.Tables
import ModelAudit.Script.SortReading

/-!
# Ground sorts

A sort is ground over some names if it is built from these names and the
built-in sorts alone. Sorts that are read are ground over the declared sorts:
aliases are expanded, and their placeholders replaced.
-/

namespace ModelAudit

namespace SmtSort

/-- Sorts built from declared names and the built-in sorts. -/
inductive Ground (names : List Text) : SmtSort → Prop
  | basic {name : Text} : name ∈ basicNames → Ground names (simple name)
  | bitVec {width : Int} : 0 < width → Ground names (.bitVec width)
  | array {index element : SmtSort} :
      Ground names index → Ground names element →
      Ground names (.array index element)
  | named {name : Text} : name ∈ names → Ground names (simple name)

variable {names more params : List Text} {sort : SmtSort}

theorem Ground.mono (ground : sort.Ground names) (subset : names ⊆ more) :
    sort.Ground more := by
  induction ground with
  | basic member => exact .basic member
  | bitVec positive => exact .bitVec positive
  | array _ _ indexHypothesis elementHypothesis =>
    exact .array indexHypothesis elementHypothesis
  | named member => exact .named (subset member)

theorem ground_of_builtin? {name : Text} {arguments : List SmtSort}
    {indices : List Int} (known : builtin? name arguments indices = some sort)
    (ground : ∀ argument ∈ arguments, argument.Ground names) :
    sort.Ground names := by
  match arguments, indices with
  | [], [] =>
      simp only [builtin?, Option.ite_none_right_eq_some, Option.some.injEq]
        at known
      obtain ⟨member, rfl⟩ := known
      exact .basic (List.contains_iff_mem.mp member)
  | [], [width] =>
      simp only [builtin?, Option.ite_none_right_eq_some, Option.some.injEq]
        at known
      obtain ⟨⟨_, positive⟩, rfl⟩ := known
      exact .bitVec positive
  | [index, element], [] =>
      simp only [builtin?, Option.ite_none_right_eq_some, Option.some.injEq]
        at known
      obtain ⟨_, rfl⟩ := known
      exact .array (ground index (by simp)) (ground element (by simp))
  | [], _ :: _ :: _ | [_], _ | _ :: _ :: _ :: _, _ | [_, _], _ :: _ =>
    cases known

/-- Replacing every placeholder by a ground sort leaves no placeholder. -/
theorem Ground.substitute {replacements : Table SmtSort}
    (ground : sort.Ground (params ++ names))
    (covered : ∀ name ∈ params, replacements.find? name ≠ none)
    (values : ∀ name value, replacements.find? name = some value →
      value.Ground names) :
    (sort.substitute replacements).Ground names := by
  have replaced (name : Text)
      (otherwise : replacements.find? name = none →
        (simple name).Ground names) :
      ((simple name).substitute replacements).Ground names := by
    rw [simple, SmtSort.substitute]
    cases found : replacements.find? name with
    | none => exact otherwise found
    | some value => exact values name value found
  induction ground with
  | basic member => exact replaced _ fun _ => .basic member
  | bitVec positive => exact .bitVec positive
  | array _ _ indexHypothesis elementHypothesis =>
    exact .array indexHypothesis elementHypothesis
  | @named name member =>
      apply replaced
      intro absent
      rcases List.mem_append.mp member with placeholder | declared
      · exact absurd absent (covered name placeholder)
      · exact .named declared

end SmtSort

theorem SortAlias.ground_instantiate {sortAlias : SortAlias} {names : List Text}
    {arguments : List SmtSort}
    (ground : sortAlias.body.Ground (sortAlias.params ++ names))
    (lengths : sortAlias.params.length = arguments.length)
    (groundArguments : ∀ argument ∈ arguments, argument.Ground names) :
    (sortAlias.instantiate arguments).Ground names := by
  apply ground.substitute
  · exact fun name member absent =>
      (Table.find?_zip_eq_none_iff lengths).mp absent member
  · exact fun name value found =>
      groundArguments value (Table.mem_of_find?_zip found)

namespace SymbolTable

/-- The body of every alias is ground over its placeholders and the declared
sorts. -/
def GroundAliases (symbols : SymbolTable) : Prop :=
  ∀ name sortAlias, symbols.aliases.find? name = some sortAlias →
    sortAlias.body.Ground (sortAlias.params ++ symbols.userSorts)

end SymbolTable

section Reading

variable {symbols : SymbolTable} {placeholders : List Text} {name : Text}
  {sort : SmtSort} {expression : SExpr}

/-- What an alias stands for mentions sorts of its arguments and of its body
only. -/
private theorem ground_of_expandAlias {sortAlias : SortAlias}
    {arguments : List SmtSort} (aliases : symbols.GroundAliases)
    (known : symbols.aliases.find? name = some sortAlias)
    (groundArguments : ∀ argument ∈ arguments,
      argument.Ground (placeholders ++ symbols.userSorts))
    (read : expandAlias name sortAlias arguments expression = .ok sort) :
    sort.Ground (placeholders ++ symbols.userSorts) := by
  rw [expandAlias] at read
  split at read
  · next lengths =>
    obtain rfl := Except.ok.inj read
    apply SortAlias.ground_instantiate _ lengths groundArguments
    apply (aliases name sortAlias known).mono
    intro other member
    rcases List.mem_append.mp member with placeholder | declared
    · exact List.mem_append_left _ placeholder
    · exact List.mem_append_right _ (List.mem_append_right _ declared)
  · cases read

/-- What a name means as a sort is built of placeholders and known sorts. -/
private theorem ground_of_sortOfName (aliases : symbols.GroundAliases)
    (read : sortOfName symbols placeholders name expression = .ok sort) :
    sort.Ground (placeholders ++ symbols.userSorts) := by
  rw [sortOfName] at read
  split at read
  · next placeholder =>
    obtain rfl := Except.ok.inj read
    exact .named (List.mem_append_left _ (List.contains_iff_mem.mp placeholder))
  · split at read
    · next sortAlias known =>
      exact ground_of_expandAlias aliases known (by simp) read
    · split at read
      · next known =>
        obtain rfl := Except.ok.inj read
        exact SmtSort.ground_of_builtin? known (by simp)
      · split at read
        · next declared =>
          obtain rfl := Except.ok.inj read
          have member : name ∈ symbols.userSorts :=
            List.mem_map_of_mem (Table.mem_of_find?_eq_some declared)
          exact .named (List.mem_append_right _ member)
        · cases read

private theorem ground_of_indexedSort {items : List SExpr} {names : List Text}
    (read : indexedSort items expression = .ok sort) :
    sort.Ground names := by
  match items with
  | [] | [_] => cases read
  | head :: first :: others =>
      rw [indexedSort] at read
      split at read
      · cases read
      · obtain ⟨indices, _, read⟩ := Outcome.bind_eq_ok.mp read
        split at read
        · next known =>
          obtain rfl := Except.ok.inj read
          exact SmtSort.ground_of_builtin? known (by simp)
        · cases read

private theorem ground_of_appliedSort {arguments : List SmtSort}
    (aliases : symbols.GroundAliases)
    (groundArguments : ∀ argument ∈ arguments,
      argument.Ground (placeholders ++ symbols.userSorts))
    (read : appliedSort symbols name arguments expression = .ok sort) :
    sort.Ground (placeholders ++ symbols.userSorts) := by
  rw [appliedSort] at read
  split at read
  · next sortAlias known =>
      exact ground_of_expandAlias aliases known groundArguments read
  · split at read
    · next known =>
      obtain rfl := Except.ok.inj read
      exact SmtSort.ground_of_builtin? known groundArguments
    · cases read

mutual

/-- Every sort that is read is ground over the placeholders and the declared
sorts. -/
theorem readSort_ground (aliases : symbols.GroundAliases) :
    (expression : SExpr) → (sort : SmtSort) →
    readSort symbols placeholders expression = .ok sort →
    sort.Ground (placeholders ++ symbols.userSorts)
  | .atom leaf position, sort, read => by
      cases leaf with
      | symbol name quoted =>
          rw [readSort] at read
          exact ground_of_sortOfName aliases read
      | _ => cases read
  | .list [] position, sort, read => by cases read
  | .list (head :: items) position, sort, read => by
      rw [readSort] at read
      split at read
      · exact ground_of_indexedSort read
      · obtain ⟨name, _, read⟩ := Outcome.bind_eq_ok.mp read
        obtain ⟨arguments, argumentsRead, read⟩ := Outcome.bind_eq_ok.mp read
        exact ground_of_appliedSort aliases
          (readSorts_ground aliases items _ argumentsRead) read

theorem readSorts_ground (aliases : symbols.GroundAliases) :
    (expressions : List SExpr) → (sorts : List SmtSort) →
    readSorts symbols placeholders expressions = .ok sorts →
    ∀ sort ∈ sorts, sort.Ground (placeholders ++ symbols.userSorts)
  | [], sorts, read => by
      obtain rfl := Except.ok.inj read
      simp
  | expression :: expressions, sorts, read => by
      rw [readSorts] at read
      obtain ⟨first, firstRead, read⟩ := Outcome.bind_eq_ok.mp read
      obtain ⟨others, othersRead, read⟩ := Outcome.bind_eq_ok.mp read
      obtain rfl := Except.ok.inj read
      exact List.forall_mem_cons.mpr
        ⟨readSort_ground aliases expression first firstRead,
          readSorts_ground aliases expressions others othersRead⟩

end

/-- Outside aliases there are no placeholders. -/
theorem readSort_closed (aliases : symbols.GroundAliases)
    (read : readSort symbols [] expression = .ok sort) :
    sort.Ground symbols.userSorts :=
  readSort_ground aliases expression sort read

theorem readSorts_closed {expressions : List SExpr} {sorts : List SmtSort}
    (aliases : symbols.GroundAliases)
    (read : readSorts symbols [] expressions = .ok sorts) :
    ∀ sort ∈ sorts, sort.Ground symbols.userSorts :=
  readSorts_ground aliases expressions sorts read

/-- The binders of a list of sorted names have ground sorts. -/
theorem readSortedNames_ground {expressions : List SExpr} {binders : Binders}
    (aliases : symbols.GroundAliases)
    (read : expressions.mapM (readSortedName symbols) = .ok binders) :
    ∀ binder ∈ binders, binder.snd.Ground symbols.userSorts := by
  intro binder member
  obtain ⟨expression, _, named⟩ := Outcome.exists_of_mem_mapM read member
  unfold readSortedName at named
  split at named
  · obtain ⟨name, _, named⟩ := Outcome.bind_eq_ok.mp named
    obtain ⟨sort, sortRead, named⟩ := Outcome.bind_eq_ok.mp named
    obtain rfl := Except.ok.inj named
    exact readSort_closed aliases sortRead
  · cases named

end Reading

end ModelAudit
