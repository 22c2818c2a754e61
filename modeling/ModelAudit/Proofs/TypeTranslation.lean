import ModelAudit.Hol.Translation
import ModelAudit.Proofs.GroundSorts
import ModelAudit.Proofs.Identifier

/-!
# Translation of sorts

Every ground sort has a type, and different ground sorts have different types.
-/

namespace ModelAudit

namespace SmtSort

def simpleType (name : Text) : HolType :=
  if name = "Bool" then .bool
  else if name = "Int" then .int
  else if name = "Real" then .real
  else if name = "String" then .string
  else .named (Identifier.typeVariable name)

variable {names : List Text} {name : Text} {sort other : SmtSort}
  {type : HolType}

theorem toHol_simple (known : name ∈ basicNames ∨ name ∈ names) :
    (simple name).toHol names = .ok (simpleType name) := by
  have same (basic : Text) : mk name [] [] = simple basic ↔ name = basic := by
    simp [simple]
  have width : (mk name [] []).width? = none := rfl
  rw [simple, toHol.eq_def]
  simp only [bool, int, real, string, same, width, simpleType]
  by_cases basic : name ∈ basicNames
  · rcases (by simpa [basicNames] using basic : _ ∨ _ ∨ _ ∨ _)
      with rfl | rfl | rfl | rfl <;> rfl
  · have member : names.contains name = true :=
      List.contains_iff_mem.mpr (known.resolve_left basic)
    simp only [basicNames, List.mem_cons, List.not_mem_nil, or_false, not_or]
      at basic
    simp only [basic, if_false, isSimple, params, indices, member,
      List.isEmpty_nil, Bool.and_self, if_true]

theorem toHol_bitVec (width : Int) :
    (bitVec width).toHol names = .ok (.word width) := by
  rw [bitVec, toHol.eq_def]
  simp [bool, int, real, string, simple, width?]

theorem toHol_array (index element : SmtSort) :
    (array index element).toHol names = (do
      let argument ← index.toHol names
      let result ← element.toHol names
      return .function argument result) := by
  rw [array, toHol.eq_def]
  simp [bool, int, real, string, simple, width?]

/-- Every ground sort has a type. -/
theorem Ground.toHol_ok (ground : sort.Ground names) :
    ∃ type, sort.toHol names = .ok type := by
  induction ground with
  | basic member => exact ⟨_, toHol_simple (.inl member)⟩
  | bitVec _ => exact ⟨_, toHol_bitVec _⟩
  | array _ _ indexHypothesis elementHypothesis =>
      obtain ⟨argument, indexType⟩ := indexHypothesis
      obtain ⟨result, elementType⟩ := elementHypothesis
      refine ⟨.function argument result, ?_⟩
      rw [toHol_array, indexType, elementType]
      rfl
  | named member => exact ⟨_, toHol_simple (.inr member)⟩

private theorem simpleType_of_not_mem_basicNames (other : name ∉ basicNames) :
    simpleType name = .named (Identifier.typeVariable name) := by
  simp only [basicNames, List.mem_cons, List.not_mem_nil, or_false, not_or]
    at other
  simp only [simpleType, other, if_false]

private theorem typeVariable_injective {left right : Text}
    (same : Identifier.typeVariable left = Identifier.typeVariable right) :
    left = right := by
  rw [Identifier.typeVariable, Identifier.typeVariable,
    List.append_cancel_left_eq] at same
  exact Identifier.escape_injective same

/-- Type variables start with a prime, and the type of a basic sort does not. -/
private theorem simpleType_ne_typeVariable (basic : name ∈ basicNames)
    (other : Text) :
    simpleType name ≠ .named (Identifier.typeVariable other) := by
  have start :
      (Identifier.typeVariable other).head? = some (CodePoint.ofChar '\'') :=
        rfl
  have constants : ∀ name ∈ basicNames,
      ∃ constant ∈ (["bool", "int", "real", "string"] : List Text),
      simpleType name = .named constant ∧
        constant.head? ≠ some (CodePoint.ofChar '\'') := by
    decide +kernel
  intro same
  obtain ⟨constant, _, shape, different⟩ := constants name basic
  rw [shape] at same
  obtain rfl := HolType.named.inj same
  exact different start

theorem simpleType_injective {left right : Text}
    (same : simpleType left = simpleType right) :
    left = right := by
  by_cases leftBasic : left ∈ basicNames
  · by_cases rightBasic : right ∈ basicNames
    · have distinct : ∀ left ∈ basicNames, ∀ right ∈ basicNames,
          simpleType left = simpleType right → left = right := by
        decide +kernel
      exact distinct left leftBasic right rightBasic same
    · rw [simpleType_of_not_mem_basicNames rightBasic] at same
      exact absurd same (simpleType_ne_typeVariable leftBasic right)
  · rw [simpleType_of_not_mem_basicNames leftBasic] at same
    by_cases rightBasic : right ∈ basicNames
    · exact absurd same.symm (simpleType_ne_typeVariable rightBasic left)
    · rw [simpleType_of_not_mem_basicNames rightBasic] at same
      exact typeVariable_injective (HolType.named.inj same)

private theorem simpleType_ne_word (name : Text) (width : Int) :
    simpleType name ≠ .word width := by
  unfold simpleType
  split_ifs <;> exact HolType.noConfusion

private theorem simpleType_ne_function (name : Text)
    (argument result : HolType) :
    simpleType name ≠ .function argument result := by
  unfold simpleType
  split_ifs <;> exact HolType.noConfusion

/-- A ground sort is simple, a bit-vector sort or an array sort, and so is its
type. -/
private inductive Typed (names : List Text) : SmtSort → HolType → Prop
  | simple (name : Text) : Typed names (.simple name) (simpleType name)
  | bitVec (width : Int) : Typed names (.bitVec width) (.word width)
  | array {index element : SmtSort} {argument result : HolType} :
      Typed names index argument → Typed names element result →
      Typed names (.array index element) (.function argument result)

/-- A ground sort and its type have one of the shapes. -/
private theorem Ground.typed (ground : sort.Ground names)
    (translated : sort.toHol names = .ok type) :
    Typed names sort type := by
  induction ground generalizing type with
  | basic member =>
      rw [toHol_simple (.inl member)] at translated
      obtain rfl := Except.ok.inj translated
      exact .simple _
  | bitVec _ =>
      rw [toHol_bitVec] at translated
      obtain rfl := Except.ok.inj translated
      exact .bitVec _
  | array _ _ indexHypothesis elementHypothesis =>
      rw [toHol_array] at translated
      obtain ⟨argument, indexType, translated⟩ :=
        Outcome.bind_eq_ok.mp translated
      obtain ⟨result, elementType, translated⟩ :=
        Outcome.bind_eq_ok.mp translated
      obtain rfl := Except.ok.inj translated
      exact .array (indexHypothesis indexType) (elementHypothesis elementType)
  | named member =>
      rw [toHol_simple (.inr member)] at translated
      obtain rfl := Except.ok.inj translated
      exact .simple _

/-- Ground sorts of one type are the same. -/
private theorem Typed.unique (typed : Typed names sort type)
    (otherTyped : Typed names other type) :
    sort = other := by
  induction typed generalizing other with
  | simple name =>
      generalize shape : simpleType name = type at otherTyped
      cases otherTyped with
      | simple otherName => rw [simpleType_injective shape]
      | bitVec width => exact absurd shape (simpleType_ne_word name width)
      | array _ _ => exact absurd shape (simpleType_ne_function name _ _)
  | bitVec width =>
      generalize shape : HolType.word width = type at otherTyped
      cases otherTyped with
      | simple otherName =>
        exact absurd shape.symm (simpleType_ne_word otherName width)
      | bitVec otherWidth => rw [HolType.word.inj shape]
      | array _ _ => cases shape
  | @array index element argument result _ _ indexHypothesis
      elementHypothesis =>
      generalize shape : HolType.function argument result = type at otherTyped
      cases otherTyped with
      | simple otherName =>
          exact absurd shape.symm
            (simpleType_ne_function otherName argument result)
      | bitVec _ => cases shape
      | array indexTyped elementTyped =>
          obtain ⟨rfl, rfl⟩ := HolType.function.inj shape
          rw [indexHypothesis indexTyped, elementHypothesis elementTyped]

/-- Different ground sorts have different types. -/
theorem Ground.toHol_injective (ground : sort.Ground names)
    (otherGround : other.Ground names)
    (translated : sort.toHol names = .ok type)
    (otherTranslated : other.toHol names = .ok type) :
    sort = other :=
  (ground.typed translated).unique (otherGround.typed otherTranslated)

end SmtSort

end ModelAudit
