import ModelAudit.Proofs.UnfoldingMeaning

/-!
# Expansion with a stack

A definition that is being expanded stands on a stack. It is pushed before its
body is expanded, and it is popped afterwards, also when the expansion of the
body is given up. The table of definitions stays as it is, so it is the stack
alone that keeps expansion from running in circles. It does: every expansion
ends, leaves the stack as it was, and is given up if and only if it comes to a
definition that makes use of itself.
-/

namespace ModelAudit.Unfolding

open Relation

/-- What is expanded: a term or several terms inside binders, or a declared
symbol. -/
inductive Task
  | term (context : Context) (subject : Term)
  | terms (context : Context) (subjects : List Term)
  | symbol (name : Text) (arguments : List Expression) (sort : SmtSort)

/-- The declared symbols that a task comes upon first. -/
def Task.uses : Task → List Text
  | term context subject => subject.uses context
  | terms context subjects => Term.usesOfAll context subjects
  | symbol name _ _ => [name]

/-- The outcome of an expansion: one expression for each term. -/
abbrev Expansion := Except Unsupported (List Expression)

/-- An expansion of a task on a stack ends with an outcome and a stack. The
first part that is given up ends the whole expansion. -/
inductive Expands (table : Table Definition) : List Text → Task → Expansion →
  List Text → Prop
  | literal {stack : List Text} {context : Context} {value : Literal} :
      Expands table stack (.term context (.literal value))
        (.ok [.value value.constant]) stack
  | bound {stack : List Text} {context : Context} {name : Text} {sort : SmtSort}
      {index : Nat} :
      context.index? name = some index →
      Expands table stack (.term context (.symbol name sort))
        (.ok [.bound index sort]) stack
  | free {stack later : List Text} {context : Context} {name : Text}
      {sort : SmtSort} {outcome : Expansion} :
      context.index? name = none →
      Expands table stack (.symbol name [] sort) outcome later →
      Expands table stack (.term context (.symbol name sort)) outcome later
  | functionArray {stack later : List Text} {context : Context}
      {function : Text} {index element : SmtSort} {outcome : Expansion} :
      Expands table stack (.symbol function [.bound 0 index] element)
        outcome later →
      Expands table stack
        (.term context (.functionArray function index element))
        (outcome.map (List.map (.arrayOf index element))) later
  | operation {stack later : List Text} {context : Context}
      {operator : Operator} {indices : List Nat} {arguments : List Term}
      {sort : SmtSort} {outcome : Expansion} :
      Expands table stack (.terms context arguments) outcome later →
      Expands table stack
        (.term context
          (.application (.operator operator) indices arguments sort))
        (outcome.map fun values => [operator.construct indices values sort])
          later
  | application {stack middle later : List Text} {context : Context}
      {name : Text} {indices : List Nat} {arguments : List Term}
      {sort : SmtSort} {values : List Expression}
      {outcome : Expansion} :
      Expands table stack (.terms context arguments) (.ok values) middle →
      Expands table middle (.symbol name values sort) outcome later →
      Expands table stack
        (.term context (.application (.function name) indices arguments sort))
        outcome later
  | argumentFault {stack later : List Text} {context : Context} {name : Text}
      {indices : List Nat} {arguments : List Term} {sort : SmtSort}
      {fault : Unsupported} :
      Expands table stack (.terms context arguments) (.error fault) later →
      Expands table stack
        (.term context (.application (.function name) indices arguments sort))
        (.error fault) later
  | letIn {stack middle later : List Text} {context : Context}
      {bindings : List (Text × Term)} {body : Term} {values : List Expression}
      {outcome : Expansion} :
      Expands table stack (.terms context (bindings.map Prod.snd))
        (.ok values) middle →
      Expands table middle (.term (context.extend (bindings.map Prod.fst)) body)
        outcome later →
      Expands table stack (.term context (.letIn bindings body))
        (outcome.map (List.map (.letIn values))) later
  | bindingFault {stack later : List Text} {context : Context}
      {bindings : List (Text × Term)} {body : Term} {fault : Unsupported} :
      Expands table stack (.terms context (bindings.map Prod.snd))
        (.error fault) later →
      Expands table stack (.term context (.letIn bindings body))
        (.error fault) later
  | quantified {stack later : List Text} {context : Context}
      {quantifier : Quantifier} {binders : Binders} {body : Term}
      {outcome : Expansion} :
      Expands table stack (.term (context.extend (binders.map Prod.fst)) body)
        outcome later →
      Expands table stack (.term context (.quantified quantifier binders body))
        (outcome.map (List.map (.quantified quantifier (binders.map Prod.snd))))
        later
  | annotated {stack later : List Text} {context : Context} {inner : Term}
      {attributes : List (Text × Text)} {outcome : Expansion} :
      Expands table stack (.term context inner) outcome later →
      Expands table stack (.term context (.annotated inner attributes))
        outcome later
  | nil {stack : List Text} {context : Context} :
      Expands table stack (.terms context []) (.ok []) stack
  | cons {stack middle later : List Text} {context : Context} {first : Term}
      {others : List Term} {values : List Expression} {outcome : Expansion} :
      Expands table stack (.term context first) (.ok values) middle →
      Expands table middle (.terms context others) outcome later →
      Expands table stack (.terms context (first :: others))
        (outcome.map (values ++ ·)) later
  | firstFault {stack later : List Text} {context : Context} {first : Term}
      {others : List Term} {fault : Unsupported} :
      Expands table stack (.term context first) (.error fault) later →
      Expands table stack (.terms context (first :: others))
        (.error fault) later
  | undefined {stack : List Text} {name : Text} {arguments : List Expression}
      {sort : SmtSort} :
      table.find? name = none →
      Expands table stack (.symbol name arguments sort)
        (.ok [openSymbol name arguments sort]) stack
  | recursive {stack : List Text} {name : Text} {arguments : List Expression}
      {sort : SmtSort} {definition : Definition} :
      table.find? name = some definition → name ∈ stack →
      Expands table stack (.symbol name arguments sort)
        (.error ⟨"recursive definition", name⟩) stack
  /-- Whatever stack the body leaves, and whether it is expanded or given up,
  its top is popped. -/
  | defined {stack later : List Text} {name : Text}
      {arguments : List Expression} {sort : SmtSort} {definition : Definition}
      {outcome : Expansion} :
      table.find? name = some definition → name ∉ stack →
      Expands table (name :: stack)
        (.term (Context.extend [] (definition.params.map Prod.fst))
          definition.body) outcome later →
      Expands table stack (.symbol name arguments sort)
        (outcome.map (List.map (bindArguments arguments))) later.tail

variable {table : Table Definition} {stack later : List Text} {task : Task}
  {outcome : Expansion} {state : State} {context : Context}

/-- The stack is restored, whether the expansion succeeds or is given up. -/
theorem Expands.restores (expands : Expands table stack task outcome later) :
    later = stack := by
  induction expands with
  | literal | bound _ | nil | undefined _ | recursive _ _ => rfl
  | free _ _ inductionHypothesis | functionArray _ inductionHypothesis
  | operation _ inductionHypothesis | argumentFault _ inductionHypothesis
  | bindingFault _ inductionHypothesis | quantified _ inductionHypothesis
  | annotated _ inductionHypothesis | firstFault _ inductionHypothesis =>
    exact inductionHypothesis
  | application _ _ earlier inductionHypothesis
  | letIn _ _ earlier inductionHypothesis
  | cons _ _ earlier inductionHypothesis =>
    exact inductionHypothesis.trans earlier
  | defined _ _ _ inductionHypothesis =>
      rw [inductionHypothesis]
      rfl

/-- An expansion has one outcome. -/
theorem Expands.unique {other : Expansion} {otherLater : List Text}
    (expands : Expands table stack task outcome later)
    (otherExpands : Expands table stack task other otherLater) :
    outcome = other := by
  induction expands generalizing other otherLater with
  | literal =>
      cases otherExpands
      rfl
  | bound index =>
      cases otherExpands with
      | bound otherIndex => rw [Option.some.inj (index.symm.trans otherIndex)]
      | free noIndex _ => cases index.symm.trans noIndex
  | free noIndex _ inductionHypothesis =>
      cases otherExpands with
      | bound index => cases index.symm.trans noIndex
      | free _ symbol => exact inductionHypothesis symbol
  | functionArray _ inductionHypothesis =>
      cases otherExpands with
      | functionArray symbol => rw [inductionHypothesis symbol]
  | operation _ inductionHypothesis =>
      cases otherExpands with
      | operation arguments => rw [inductionHypothesis arguments]
  | application first _ argumentsHypothesis symbolHypothesis =>
      cases otherExpands with
      | application arguments symbol =>
          obtain rfl := Except.ok.inj (argumentsHypothesis arguments)
          rw [arguments.restores, ← first.restores] at symbol
          exact symbolHypothesis symbol
      | argumentFault arguments => cases argumentsHypothesis arguments
  | argumentFault _ argumentsHypothesis =>
      cases otherExpands with
      | application arguments _ => cases argumentsHypothesis arguments
      | argumentFault arguments => exact argumentsHypothesis arguments
  | letIn first _ valuesHypothesis bodyHypothesis =>
      cases otherExpands with
      | letIn values body =>
          obtain rfl := Except.ok.inj (valuesHypothesis values)
          rw [values.restores, ← first.restores] at body
          rw [bodyHypothesis body]
      | bindingFault values => cases valuesHypothesis values
  | bindingFault _ valuesHypothesis =>
      cases otherExpands with
      | letIn values _ => cases valuesHypothesis values
      | bindingFault values => exact valuesHypothesis values
  | quantified _ inductionHypothesis =>
      cases otherExpands with
      | quantified body => rw [inductionHypothesis body]
  | annotated _ inductionHypothesis =>
      cases otherExpands with
      | annotated inner => exact inductionHypothesis inner
  | nil =>
      cases otherExpands
      rfl
  | cons head _ firstHypothesis othersHypothesis =>
      cases otherExpands with
      | cons first others =>
          obtain rfl := Except.ok.inj (firstHypothesis first)
          rw [first.restores, ← head.restores] at others
          rw [othersHypothesis others]
      | firstFault first => cases firstHypothesis first
  | firstFault _ firstHypothesis =>
      cases otherExpands with
      | cons first _ => cases firstHypothesis first
      | firstFault first => exact firstHypothesis first
  | undefined absent =>
      cases otherExpands with
      | undefined _ => rfl
      | recursive found _ | defined found _ _ => cases absent.symm.trans found
  | recursive found entered =>
      cases otherExpands with
      | undefined absent => cases absent.symm.trans found
      | recursive _ _ => rfl
      | defined _ outside _ => exact absurd entered outside
  | defined found outside _ inductionHypothesis =>
      cases otherExpands with
      | undefined absent => cases absent.symm.trans found
      | recursive _ entered => exact absurd entered outside
      | defined otherFound _ body =>
          obtain rfl := Option.some.inj (found.symm.trans otherFound)
          rw [inductionHypothesis body]

/-! ## Every expansion ends -/

/-- The outcome that unfolding has in a state. -/
def Task.unfold (state : State) : Task → Expansion
  | term context subject =>
    (Unfolding.term state context subject).map fun value => [value]
  | terms context subjects => Unfolding.terms state context subjects
  | symbol name arguments sort =>
    (Unfolding.symbol state name arguments sort).map fun value => [value]

/-- The last step of a computation is an image of the steps before it. -/
theorem bind_return {Value Image : Type} (computed : Except Unsupported Value)
    (image : Value → Image) :
    (do return image (← computed)) = computed.map image := by
  cases computed with
  | error fault => rfl
  | ok value => rfl

theorem singleton_map (computed : Except Unsupported Expression)
    (image : Expression → Expression) :
    ((computed.map image).map fun value => [value]) =
      (computed.map fun value => [value]).map (List.map image) := by
  cases computed with
  | error fault => rfl
  | ok value => rfl

/-- Terms are expanded in turn, and each finds the stack as the one before has
found it. -/
theorem expands_terms {subjects : List Term}
    (each : ∀ subject ∈ subjects,
      Expands table stack (.term context subject)
        ((Task.term context subject).unfold state) stack) :
    Expands table stack (.terms context subjects)
      (terms state context subjects) stack := by
  induction subjects with
  | nil =>
      rw [terms]
      exact .nil
  | cons first others inductionHypothesis =>
      obtain ⟨head, tail⟩ := List.forall_mem_cons.mp each
      rw [Task.unfold] at head
      rw [terms]
      cases unfolded : term state context first with
      | error fault =>
          rw [unfolded] at head
          exact .firstFault head
      | ok value =>
          rw [unfolded] at head
          rw [Outcome.ok_bind, bind_return]
          exact .cons head (inductionHypothesis tail)

/-- By induction on the term; unfolding says what the expansion of the parts
comes to. -/
theorem expands_term
    (symbols : ∀ name arguments sort,
      Expands table stack (.symbol name arguments sort)
      ((Task.symbol name arguments sort).unfold state) stack) (subject : Term) :
    ∀ context, Expands table stack (.term context subject)
      ((Task.term context subject).unfold state) stack := by
  induction subject using Term.induction with
  | literal value =>
      intro context
      rw [Task.unfold, term]
      exact .literal
  | symbol name sort =>
      intro context
      rw [Task.unfold, term]
      cases index : context.index? name with
      | some index => exact .bound index
      | none => exact .free index (symbols name [] sort)
  | functionArray function index element =>
      intro context
      rw [Task.unfold, term, bind_return, singleton_map]
      exact .functionArray (symbols function [.bound 0 index] element)
  | application head indices arguments sort argumentsHypothesis =>
      intro context
      have values := expands_terms fun subject member =>
        argumentsHypothesis subject member context
      rw [Task.unfold, term]
      cases head with
      | operator operator =>
          have applied :=
            @Expands.operation _ _ _ _ operator indices _ sort _ values
          rw [bind_return]
          cases unfolded : terms state context arguments with
          | error fault =>
              rw [unfolded] at applied
              exact applied
          | ok values =>
              rw [unfolded] at applied
              exact applied
      | function name =>
          cases unfolded : terms state context arguments with
          | error fault =>
              rw [unfolded] at values
              exact .argumentFault values
          | ok arguments =>
              rw [unfolded] at values
              exact .application values (symbols name arguments sort)
  | letIn bindings body bindingsHypothesis bodyHypothesis =>
      intro context
      have values : Expands table stack (.terms context (bindings.map Prod.snd))
          (terms state context (bindings.map Prod.snd)) stack :=
        expands_terms (List.forall_mem_map.mpr fun binding member =>
          bindingsHypothesis binding member context)
      rw [Task.unfold, term, boundTerms_eq]
      cases unfolded : terms state context (bindings.map Prod.snd) with
      | error fault =>
          rw [unfolded] at values
          exact .bindingFault values
      | ok arguments =>
          rw [unfolded] at values
          rw [Outcome.ok_bind, bind_return, singleton_map]
          exact .letIn values (bodyHypothesis _)
  | quantified quantifier binders body bodyHypothesis =>
      intro context
      rw [Task.unfold, term, bind_return, singleton_map]
      exact .quantified (bodyHypothesis _)
  | annotated inner attributes innerHypothesis =>
      intro context
      rw [Task.unfold, term]
      exact .annotated (innerHypothesis context)

/-- The state sets aside the definitions whose names are on the stack. -/
structure State.Follows (state : State) (table : Table Definition)
    (stack : List Text) : Prop where
  tracks : state.Tracks table
  mem_entered : ∀ name, name ∈ state.entered ↔ name ∈ stack ∧ ∃ definition,
    table.find? name = some definition

/-- Entering a definition puts its name on the stack. -/
theorem State.Follows.enter (follows : state.Follows table stack) {name : Text}
    {definition : Definition} (found : table.find? name = some definition) :
    (state.enter name).Follows table (name :: stack) where
  tracks := follows.tracks.enter name
  mem_entered other := by
    rw [State.enter, List.mem_cons, List.mem_cons, follows.mem_entered]
    constructor
    · rintro (rfl | ⟨inside, defined⟩)
      · exact ⟨.inl rfl, definition, found⟩
      · exact ⟨.inr inside, defined⟩
    · rintro ⟨rfl | inside, defined⟩
      · exact .inl rfl
      · exact .inr ⟨inside, defined⟩

/-- For every stack there is a state that sets aside the definitions on it. -/
theorem exists_follows (table : Table Definition) (stack : List Text) :
    ∃ state : State, state.Follows table stack := by
  induction stack with
  | nil => exact ⟨⟨table, []⟩, fun _ => rfl, by simp⟩
  | cons name stack inductionHypothesis =>
      obtain ⟨state, follows⟩ := inductionHypothesis
      cases found : table.find? name with
      | some definition => exact ⟨_, follows.enter found⟩
      | none =>
          refine ⟨state, follows.tracks, fun other => ?_⟩
          rw [follows.mem_entered, List.mem_cons]
          constructor
          · exact fun ⟨inside, defined⟩ => ⟨.inr inside, defined⟩
          · rintro ⟨rfl | inside, definition, otherFound⟩
            · cases found.symm.trans otherFound
            · exact ⟨inside, definition, otherFound⟩

/-- A symbol whose definition is set aside is on the stack already. Below any
other definition there is one definition less. -/
theorem expands_symbol (state : State) {stack : List Text}
    (follows : state.Follows table stack) (name : Text)
    (arguments : List Expression) (sort : SmtSort) :
    Expands table stack (.symbol name arguments sort)
      ((Task.symbol name arguments sort).unfold state) stack := by
  have available := follows.tracks name
  rw [Task.unfold, symbol]
  split
  · next entered =>
    obtain ⟨inside, definition, found⟩ :=
      (follows.mem_entered name).mp (List.contains_iff_mem.mp entered)
    exact .recursive found inside
  · next notEntered =>
    have outside : name ∉ state.entered :=
      mt List.contains_iff_mem.mpr notEntered
    rw [if_neg outside] at available
    split
    · next absent => exact .undefined (available.symm.trans absent)
    · next definition found =>
      have defined := available.symm.trans found
      have shorter := state.enter_lt name definition found
      have notInside : name ∉ stack := fun inside =>
        outside ((follows.mem_entered name).mpr ⟨inside, definition, defined⟩)
      have body :=
        expands_term (expands_symbol (state.enter name) (follows.enter defined))
          definition.body (Context.extend [] (definition.params.map Prod.fst))
      rw [bind_return, singleton_map]
      exact .defined defined notInside body
termination_by state.available.length

/-- The expansion of any task ends on any stack. -/
theorem expands_unfold (follows : state.Follows table stack) (task : Task) :
    Expands table stack task (task.unfold state) stack := by
  have symbols := expands_symbol state follows
  cases task with
  | term context subject => exact expands_term symbols subject context
  | terms context subjects =>
      exact expands_terms fun subject _ => expands_term symbols subject context
  | symbol name arguments sort => exact symbols name arguments sort

/-! ## Giving up -/

/-- The definition of the name makes use of itself, directly or through other
definitions. -/
def Circular (table : Table Definition) (name : Text) : Prop :=
  TransGen (Leads Definition.uses table) name name

/-- From one of the names a path leads to the name that the fault is about. That
name is on the stack already, or its definition is circular. -/
def GivenUp (table : Table Definition) (stack names : List Text)
    (fault : Unsupported) : Prop :=
  ∃ first ∈ names, ∃ name,
    ReflTransGen (Leads Definition.uses table) first name ∧
    (name ∈ stack ∨ Circular table name) ∧
    fault = ⟨"recursive definition", name⟩

variable {names others : List Text} {fault : Unsupported}

theorem GivenUp.weaken (givenUp : GivenUp table stack names fault)
    (subset : names ⊆ others) :
    GivenUp table stack others fault := by
  obtain ⟨first, member, given⟩ := givenUp
  exact ⟨first, subset member, given⟩

/-- A path through the body of a definition that is expanded starts at its name.
If it leads back to the name, the definition is circular. -/
theorem GivenUp.of_body {name : Text} {definition : Definition}
    (found : table.find? name = some definition)
    (givenUp : GivenUp table (name :: stack) definition.uses fault) :
    GivenUp table stack [name] fault := by
  obtain ⟨first, used, target, path, stops, rfl⟩ := givenUp
  have leads : Leads Definition.uses table name first :=
    ⟨definition, found, used⟩
  refine ⟨name, List.mem_singleton_self name, target, .head leads path, ?_, rfl⟩
  rcases stops with member | circular
  · rcases List.mem_cons.mp member with rfl | inside
    · exact .inr (.head' leads path)
    · exact .inl inside
  · exact .inr circular

theorem error_of_map {Value Image : Type} {computed : Except Unsupported Value}
    {image : Value → Image} (failed : computed.map image = .error fault) :
    computed = .error fault := by
  cases computed with
  | error other => exact congrArg _ (Except.error.inj failed)
  | ok value => cases failed

/-- An expansion that is given up has come upon the name in the fault, along a
path through definitions. -/
theorem Expands.givenUp (expands : Expands table stack task outcome later)
    (failed : outcome = .error fault) :
    GivenUp table stack task.uses fault := by
  induction expands with
  | literal | bound _ | nil | undefined _ => cases failed
  | @free stack later context name sort outcome noIndex _ inductionHypothesis =>
      have unbound : ¬context.contains name := by
        rw [List.contains_iff_mem, ← List.isSome_idxOf?]
        exact Option.not_isSome_iff_eq_none.mpr noIndex
      have used : name ∈ (Term.symbol name sort).uses context := by
        rw [Term.uses, if_neg unbound]
        exact List.mem_singleton_self name
      exact (inductionHypothesis failed).weaken
        (List.cons_subset.mpr ⟨used, List.nil_subset _⟩)
  | functionArray _ inductionHypothesis =>
    exact inductionHypothesis (error_of_map failed)
  | operation _ inductionHypothesis =>
      exact (inductionHypothesis (error_of_map failed)).weaken
        (List.subset_append_left _ _)
  | application arguments _ _ inductionHypothesis =>
      have given := inductionHypothesis failed
      rw [arguments.restores] at given
      exact given.weaken (List.subset_append_right _ _)
  | argumentFault _ inductionHypothesis =>
      exact (inductionHypothesis failed).weaken (List.subset_append_left _ _)
  | letIn values _ _ inductionHypothesis =>
      have given := inductionHypothesis (error_of_map failed)
      rw [values.restores] at given
      exact given.weaken (List.subset_append_right _ _)
  | bindingFault _ inductionHypothesis =>
      refine (inductionHypothesis failed).weaken fun name member => ?_
      obtain ⟨subject, inside, used⟩ := Term.mem_usesOfAll.mp member
      obtain ⟨binding, bound, rfl⟩ := List.mem_map.mp inside
      exact List.mem_append_left _
        (Term.mem_usesOfBindings.mpr ⟨binding, bound, used⟩)
  | quantified _ inductionHypothesis =>
    exact inductionHypothesis (error_of_map failed)
  | annotated _ inductionHypothesis => exact inductionHypothesis failed
  | cons first _ _ inductionHypothesis =>
      have given := inductionHypothesis (error_of_map failed)
      rw [first.restores] at given
      exact given.weaken (List.subset_append_right _ _)
  | firstFault _ inductionHypothesis =>
      exact (inductionHypothesis failed).weaken (List.subset_append_left _ _)
  | @recursive stack name arguments sort definition found entered =>
      obtain rfl := Except.error.inj failed
      exact ⟨name, List.mem_singleton_self name, name, .refl, .inl entered, rfl⟩
  | defined found _ _ inductionHypothesis =>
      exact (inductionHypothesis (error_of_map failed)).of_body found

/-! ## Assertions -/

section Assertions

variable {definitions : List Definition}

theorem follows_start (definitions : List Definition) :
    (State.start definitions).Follows (definitionTable definitions) [] where
  tracks _ := by
    rw [State.start, if_neg List.not_mem_nil]
    rfl
  mem_entered _ := by simp [State.start]

/-- A circular definition is one of the definitions in effect. -/
theorem exists_effective {name : Text}
    (circular : Circular (definitionTable definitions) name) :
    ∃ definition ∈ effectiveDefinitions definitions,
      definition.name = name := by
  obtain ⟨_, ⟨definition, found, _⟩, _⟩ := TransGen.head'_iff.mp circular
  obtain ⟨_, rfl⟩ := definition_of_find? found
  exact ⟨definition, mem_effectiveDefinitions.mpr found, rfl⟩

/-- The assertion leads to the circular definition through the bodies of
definitions. -/
def LeadsToCircular (definitions : List Definition) (assertion : Term)
    (definition : Definition) : Prop :=
  definition ∈ effectiveDefinitions definitions ∧
    Circular (definitionTable definitions) definition.name ∧
    ∃ first ∈ assertion.uses [],
      ReflTransGen (Leads Definition.uses (definitionTable definitions)) first
        definition.name

/-- If unfolding the assertions fails, one of them leads to a circular
definition, which the fault names. -/
theorem leadsToCircular_of_error {assertion : Term} {fault : Unsupported}
    (failed : term (.start definitions) [] assertion = .error fault) :
    ∃ definition, LeadsToCircular definitions assertion definition ∧
      fault = ⟨"recursive definition", definition.name⟩ := by
  have expands :=
    expands_unfold (follows_start definitions) (.term [] assertion)
  obtain ⟨first, used, name, path, stops, rfl⟩ :=
    expands.givenUp (by rw [Task.unfold, failed, Outcome.map_error])
  have circular := stops.resolve_left List.not_mem_nil
  obtain ⟨definition, effective, rfl⟩ := exists_effective circular
  exact ⟨definition, ⟨effective, circular, first, used, path⟩, rfl⟩

/-- An assertion that leads to a circular definition is not unfolded. -/
theorem not_ok_of_leadsToCircular {assertion : Term} {definition : Definition}
    (leads : LeadsToCircular definitions assertion definition) :
    ¬∃ expression, term (.start definitions) [] assertion = .ok expression := by
  obtain ⟨_, circular, first, used, path⟩ := leads
  intro unfolded
  have opens := (term_eq_ok_iff _ assertion []).mp unfolded first used
  exact ((opens_iff _ (follows_start definitions).tracks first).mp opens _
    path).2 circular

/-- Whatever stands on the stack, the expansion of whatever task ends with one
outcome, and the stack is what it was, whether it is given up or not. Unfolding
has the outcome of the expansion on the empty stack. An assertion is given up as
recursive if and only if it leads to a circular definition in effect. The fault
is about such a definition, and there are no other faults. -/
theorem expansion_ends (pair : Session.Pair) (assertion : Term) :
    (∀ stack task, ∃ outcome,
      Expands (definitionTable pair.definitions) stack task outcome stack ∧
        ∀ other later,
          Expands (definitionTable pair.definitions) stack task other later →
          other = outcome ∧ later = stack) ∧
      Expands (definitionTable pair.definitions) [] (.term [] assertion)
        ((term (.start pair.definitions) [] assertion).map fun expression =>
          [expression]) [] ∧
      ((∃ name, term (.start pair.definitions) [] assertion =
          .error ⟨"recursive definition", name⟩) ↔
        ∃ definition, LeadsToCircular pair.definitions assertion definition) ∧
      ∀ fault, term (.start pair.definitions) [] assertion = .error fault →
        ∃ definition, LeadsToCircular pair.definitions assertion definition ∧
          fault = ⟨"recursive definition", definition.name⟩ := by
  refine ⟨fun stack task => ?_, expands_unfold (follows_start _) _, ?_,
    fun fault => leadsToCircular_of_error⟩
  · obtain ⟨state, follows⟩ :=
      exists_follows (definitionTable pair.definitions) stack
    have expands := expands_unfold follows task
    exact ⟨_, expands, fun other later otherExpands =>
      ⟨otherExpands.unique expands, otherExpands.restores⟩⟩
  · constructor
    · rintro ⟨name, failed⟩
      obtain ⟨definition, leads, _⟩ := leadsToCircular_of_error failed
      exact ⟨definition, leads⟩
    · rintro ⟨definition, leads⟩
      cases unfolded : term (.start pair.definitions) [] assertion with
      | ok expression =>
        exact absurd ⟨expression, unfolded⟩ (not_ok_of_leadsToCircular leads)
      | error fault =>
          obtain ⟨culprit, _, rfl⟩ := leadsToCircular_of_error unfolded
          exact ⟨culprit.name, rfl⟩

end Assertions

end ModelAudit.Unfolding
