import Mathlib.Data.List.Forall2

/-!
# Computations that may fail

What is known about the steps of a computation whose outcome is known.
-/

namespace ModelAudit.Outcome

variable {Fault Value Image : Type}

@[simp]
theorem ok_bind (value : Value) (next : Value → Except Fault Image) :
    (.ok value >>= next) = next value :=
  rfl

@[simp]
theorem error_bind (fault : Fault) (next : Value → Except Fault Image) :
    (.error fault >>= next) = .error fault :=
  rfl

@[simp]
theorem map_ok (image : Value → Image) (value : Value) :
    (.ok value : Except Fault Value).map image = .ok (image value) :=
  rfl

@[simp]
theorem map_error (image : Value → Image) (fault : Fault) :
    (.error fault : Except Fault Value).map image = .error fault :=
  rfl

@[simp]
theorem pure_eq (value : Value) :
    (pure value : Except Fault Value) = .ok value :=
  rfl

theorem toOption_eq_some_iff {computed : Except Fault Value} {value : Value} :
    computed.toOption = some value ↔ computed = .ok value := by
  cases computed with
  | error fault => simp [Except.toOption]
  | ok other => simp [Except.toOption]

theorem toOption_bind (computed : Except Fault Value)
    (next : Value → Except Fault Image) :
    (computed >>= next).toOption = computed.toOption.bind fun value =>
      (next value).toOption := by
  cases computed with
  | error fault => rfl
  | ok value => rfl

theorem map_bind {Other : Type} (computed : Except Fault Value)
    (next : Value → Except Fault Image) (image : Image → Other) :
    (computed >>= next).map image = computed >>= fun value =>
      (next value).map image := by
  cases computed with
  | error fault => rfl
  | ok value => rfl

theorem bind_eq_ok {computed : Except Fault Value}
    {next : Value → Except Fault Image} {image : Image} :
    (computed >>= next) = .ok image ↔ ∃ value, computed = .ok value ∧
    next value = .ok image := by
  cases computed with
  | error fault => simp
  | ok value => simp

theorem check_bind_eq_ok {check : Except Fault Unit} {next : Except Fault Image}
    {image : Image} :
    (check >>= fun _ => next) = .ok image ↔
      check = .ok () ∧ next = .ok image := by
  cases check with
  | error fault => simp
  | ok value => simp

theorem bind_eq_error {computed : Except Fault Value}
    {next : Value → Except Fault Image} {fault : Fault} :
    (computed >>= next) = .error fault ↔
      computed = .error fault ∨ ∃ value, computed = .ok value ∧
      next value = .error fault := by
  cases computed with
  | error fault => simp
  | ok value => simp

/-- A computation whose last step cannot fail succeeds when the steps before it
do. -/
theorem exists_map_eq_ok {computed : Except Fault Value}
    {image : Value → Image} :
    (∃ result, ((do return image (← computed)) : Except Fault Image) =
        .ok result) ↔
      ∃ value, computed = .ok value := by
  cases computed with
  | error fault => simp
  | ok value => simp

theorem exists_map₂_eq_ok {Other : Type} {computed : Except Fault Value}
    {other : Except Fault Other} {image : Value → Other → Image} :
    (∃ result, ((do return image (← computed) (← other)) : Except Fault Image) =
        .ok result) ↔
      (∃ value, computed = .ok value) ∧ ∃ value, other = .ok value := by
  cases computed with
  | error fault => simp
  | ok value =>
      cases other with
      | error fault => simp
      | ok second => simp

/-- An image of a computation fails as the computation does. -/
theorem map_cases {image : Value → Image} {computed : Except Fault Value}
    {expected : Except Fault Image} (same : computed.map image = expected) :
    (∃ fault, computed = .error fault ∧ expected = .error fault) ∨
      ∃ value, computed = .ok value ∧ expected = .ok (image value) := by
  cases computed with
  | error fault => exact .inl ⟨fault, rfl, same.symm⟩
  | ok value => exact .inr ⟨value, rfl, same.symm⟩

/-- Computations with one image fail alike, or their values have one image. -/
theorem map_eq_map_cases {Other : Type} {image : Value → Image}
    {otherImage : Other → Image} {computed : Except Fault Value}
    {other : Except Fault Other}
    (same : computed.map image = other.map otherImage) :
    (∃ fault, computed = .error fault ∧ other = .error fault) ∨
      ∃ value result, computed = .ok value ∧ other = .ok result ∧
        image value = otherImage result := by
  cases computed with
  | error fault =>
      cases other with
      | error another =>
          obtain rfl : fault = another := Except.error.inj same
          exact .inl ⟨fault, rfl, rfl⟩
      | ok result => cases same
  | ok value =>
      cases other with
      | error fault => cases same
      | ok result => exact .inr ⟨value, result, rfl, rfl, Except.ok.inj same⟩

/-- A computation on every element of a list yields the outcomes in order. -/
theorem mapM_eq_ok {image : Value → Except Fault Image} {values : List Value}
    {images : List Image} :
    values.mapM image = .ok images ↔
      List.Forall₂ (fun value result => image value = .ok result) values
        images := by
  induction values generalizing images with
  | nil => simp [eq_comm]
  | cons first others inductionHypothesis =>
      simp only [List.mapM_cons, bind_eq_ok, pure_eq, Except.ok.injEq,
        inductionHypothesis, List.forall₂_cons_left_iff]
      constructor
      · rintro ⟨result, head, results, tail, rfl⟩
        exact ⟨result, results, head, tail, rfl⟩
      · rintro ⟨result, results, head, tail, rfl⟩
        exact ⟨result, head, results, tail, rfl⟩

theorem exists_mapM_eq_ok {image : Value → Except Fault Image}
    {values : List Value}
    (computed : ∀ value ∈ values, ∃ result, image value = .ok result) :
    ∃ images, values.mapM image = .ok images := by
  induction values with
  | nil => exact ⟨[], rfl⟩
  | cons first others inductionHypothesis =>
      obtain ⟨result, head⟩ := computed first (by simp)
      obtain ⟨results, tail⟩ := inductionHypothesis fun value member =>
        computed value (List.mem_cons_of_mem _ member)
      exact ⟨result :: results, by rw [List.mapM_cons, head, tail]; rfl⟩

/-- A computation on every element of a list fails as it does on one of them. -/
theorem exists_of_mapM_eq_error {image : Value → Except Fault Image}
    {values : List Value} {fault : Fault}
    (failed : values.mapM image = .error fault) :
    ∃ value ∈ values, image value = .error fault := by
  induction values with
  | nil => cases failed
  | cons first others inductionHypothesis =>
      rw [List.mapM_cons, bind_eq_error] at failed
      rcases failed with head | ⟨result, _, failed⟩
      · exact ⟨first, List.mem_cons_self, head⟩
      · rcases bind_eq_error.mp failed with tail | ⟨results, _, done'⟩
        · obtain ⟨value, member, same⟩ := inductionHypothesis tail
          exact ⟨value, List.mem_cons_of_mem _ member, same⟩
        · cases done'

/-! ## Sources and results -/

section Related

variable {Source Result : Type} {related : Source → Result → Prop}
  {sources : List Source} {results : List Result}

theorem exists_source_of_forall₂ (all : List.Forall₂ related sources results)
    {result : Result} (member : result ∈ results) :
    ∃ source ∈ sources, related source result := by
  induction all with
  | nil => cases member
  | cons head _ inductionHypothesis =>
      rcases List.mem_cons.mp member with rfl | later
      · exact ⟨_, List.mem_cons_self, head⟩
      · obtain ⟨source, inside, holds⟩ := inductionHypothesis later
        exact ⟨source, List.mem_cons_of_mem _ inside, holds⟩

/-- What each result gets from its source holds of all results. -/
theorem forall_mem_of_forall₂ {property : Result → Prop}
    (all : List.Forall₂ related sources results)
    (holds : ∀ source ∈ sources, ∀ result, related source result →
      property result) :
    ∀ result ∈ results, property result := by
  intro result member
  obtain ⟨source, inside, fits⟩ := exists_source_of_forall₂ all member
  exact holds source inside result fits

end Related

section Mapped

variable {image : Value → Except Fault Image} {values : List Value}
  {images : List Image}

theorem exists_of_mem_mapM (mapped : values.mapM image = .ok images)
    {result : Image} (member : result ∈ images) :
    ∃ value ∈ values, image value = .ok result :=
  exists_source_of_forall₂ (mapM_eq_ok.mp mapped) member

theorem exists_mem_of_mapM (mapped : values.mapM image = .ok images)
    {value : Value} (member : value ∈ values) :
    ∃ result ∈ images, image value = .ok result :=
  exists_source_of_forall₂ (.flip (mapM_eq_ok.mp mapped)) member

/-- What every result takes over from its value is a list of what the values
have. -/
theorem map_eq_of_mapM {Key : Type} {left : Image → Key} {right : Value → Key}
    (mapped : values.mapM image = .ok images)
    (same : ∀ value result, image value = .ok result →
      left result = right value) :
    images.map left = values.map right := by
  rw [← List.forall₂_eq_eq_eq, List.forall₂_map_left_iff,
    List.forall₂_map_right_iff]
  exact .flip ((mapM_eq_ok.mp mapped).imp same)

end Mapped

end ModelAudit.Outcome
