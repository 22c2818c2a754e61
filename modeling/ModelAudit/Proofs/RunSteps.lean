import ModelAudit.CommandLine.Run
import ModelAudit.Proofs.OverrideShape
import ModelAudit.Proofs.Rejection

/-!
# The steps of a run

What a step gives never depends on the log before it. So the steps of a run
compose like those of a computation that may fail, and each of them is judged by
itself.
-/

namespace ModelAudit.Run

/-- The step gives this result whatever the log holds. -/
def Gives {Result : Type} (step : Step Result)
    (result : Except Ending Result) : Prop :=
  ∀ log, (step.run.run log).fst = result

/-! ## Composing steps -/

section Gives

variable {Result Image : Type} {step : Step Result} {next : Result → Step Image}
  {value : Result} {ending : Ending} {result : Except Ending Image}

theorem gives_pure (value : Result) : Gives (pure value) (.ok value) :=
  fun _ => rfl

theorem gives_throw (ending : Ending) :
    Gives (throw ending : Step Result) (.error ending) :=
  fun _ => rfl

theorem gives_note (level : LogLevel) (message : Text) :
    Gives (note level message) (.ok ()) :=
  fun _ => rfl

/-- Steps in a row share one log. -/
theorem run_bind (step : Step Result) (next : Result → Step Image)
    (log : List LogEntry) :
    (step >>= next).run.run log =
      match step.run.run log with
      | (.ok value, log) => (next value).run.run log
      | (.error ending, log) => (.error ending, log) := by
  rw [ExceptT.run_bind, StateT.run_bind]
  cases stepped : step.run.run log with
  | mk result later =>
      cases result with
      | error ending => rfl
      | ok value => rfl

/-- A step that gives a value leaves the result to the next one. -/
theorem Gives.bind (first : Gives step (.ok value))
    (second : Gives (next value) result) :
    Gives (step >>= next) result := by
  intro log
  rw [run_bind]
  have now := first log
  split
  next other later stepped =>
    rw [stepped] at now
    obtain rfl := Except.ok.inj now
    exact second later
  next ending later stepped =>
    rw [stepped] at now
    cases now

theorem Gives.stop (first : Gives step (.error ending)) :
    Gives (step >>= next) (.error ending) := by
  intro log
  rw [run_bind]
  have now := first log
  split
  next other later stepped =>
    rw [stepped] at now
    cases now
  next other later stepped =>
    rw [stepped] at now
    obtain rfl := Except.error.inj now
    rfl

/-- The step ends the run with this exit status, or breaks it off if there is
none. -/
def StopsWith (status : Option Nat) (step : Step Result) : Prop :=
  ∃ ending, Gives step (.error ending) ∧ ending.status? = status

variable {status : Option Nat}

theorem stopsWith_throw (ending : Ending) :
    StopsWith ending.status? (throw ending : Step Result) :=
  ⟨ending, gives_throw ending, rfl⟩

/-- Nothing is done after a step that stops. -/
theorem StopsWith.bind (stops : StopsWith status step) :
    StopsWith status (step >>= next) := by
  obtain ⟨ending, first, isStatus⟩ := stops
  exact ⟨ending, first.stop, isStatus⟩

theorem Gives.bind_stops (first : Gives step (.ok value))
    (second : StopsWith status (next value)) :
    StopsWith status (step >>= next) := by
  obtain ⟨ending, last, isStatus⟩ := second
  exact ⟨ending, first.bind last, isStatus⟩

/-- A note that is only made under a condition changes nothing about what
follows. -/
theorem gives_noteIf {condition : Prop} [Decidable condition] {level : LogLevel}
    {message : Text} {noted : Unit → Step Image} {unnoted : Step Image}
    (withNote : Gives (noted ()) result)
    (without : Gives unnoted result) :
    Gives (if condition then note level message >>= noted
      else unnoted) result := by
  split
  · exact (gives_note level message).bind withNote
  · exact without

/-- How a run ends that stops with this result. -/
def endingOf : Except Ending VerdictKind → Ending
  | .ok kind => .verdict kind
  | .error ending => ending

/-- A step that is attempted tells how the run would end with it. -/
theorem Gives.attempt {step : Step VerdictKind}
    {result : Except Ending VerdictKind} (gives : Gives step result) :
    Gives (attempt step) (.ok (endingOf result)) := by
  have lifted : Gives (ExceptT.lift (ExceptT.run step)) (.ok result) := by
    intro log
    rw [ExceptT.run_lift, StateT.run_map]
    exact congrArg Except.ok (gives log)
  refine lifted.bind ?_
  cases result with
  | ok kind => exact gives_pure _
  | error ending => exact gives_pure _

end Gives

/-! ## Texts -/

end ModelAudit.Run

namespace ModelAudit.ModelSource

variable {world : World} {source : ModelSource}

/-- The source holds this text. -/
inductive Holds (world : World) : ModelSource → Text → Prop
  | file {path text : Text} {bytes : List UInt8} :
      world.contents (Path.ofText path).text = .ok bytes →
      Text.ofFile? bytes = some text →
      Holds world (.file path) text
  | standardInput {text : Text} :
      world.standardInput = some text → Holds world .standardInput text

/-- The source is a file that the system does not open. -/
inductive Closed (world : World) : ModelSource → Prop
  | file {path : Text} {kind : SystemFaultKind} :
      world.contents (Path.ofText path).text = .error kind →
      Closed world (.file path)

/-- The bytes of the source are no text. -/
inductive Undecodable (world : World) : ModelSource → Prop
  | file {path : Text} {bytes : List UInt8} :
      world.contents (Path.ofText path).text = .ok bytes →
      Text.ofFile? bytes = none →
      Undecodable world (.file path)
  | standardInput : world.standardInput = none →
      Undecodable world .standardInput

theorem cases (world : World) (source : ModelSource) :
    (∃ text, Holds world source text) ∨ Closed world source ∨
    Undecodable world source := by
  cases source with
  | file path =>
      cases opened : world.contents (Path.ofText path).text with
      | error kind => exact .inr (.inl (.file opened))
      | ok bytes =>
          cases decoded : Text.ofFile? bytes with
          | none => exact .inr (.inr (.file opened decoded))
          | some text => exact .inl ⟨text, .file opened decoded⟩
  | standardInput =>
      cases decoded : world.standardInput with
      | none => exact .inr (.inr (.standardInput decoded))
      | some text => exact .inl ⟨text, .standardInput decoded⟩

open Run

theorem Holds.gives {text : Text} (holds : Holds world source text) :
    Gives (readModelText world source) (.ok text) := by
  cases holds with
  | file opened decoded =>
      simp only [readModelText, readText, opened, decoded]
      exact gives_pure _
  | standardInput decoded =>
      simp only [readModelText, decoded]
      exact gives_pure _

theorem Closed.stops (closed : Closed world source) :
    StopsWith (some 1) (readModelText world source) := by
  cases closed with
  | file refused =>
      simp only [readModelText, readText, refused]
      exact stopsWith_throw _

theorem Undecodable.stops (undecodable : Undecodable world source) :
    StopsWith none (readModelText world source) := by
  cases undecodable with
  | file opened strange =>
      simp only [readModelText, readText, opened, strange]
      exact stopsWith_throw _
  | standardInput strange =>
      simp only [readModelText, strange]
      exact stopsWith_throw _

end ModelAudit.ModelSource

namespace ModelAudit.Run

/-! ## Reading -/

theorem stops_failReading {Result : Type} (fault : Fault) :
    StopsWith (if fault.isRejection then some 1 else none)
      (failReading fault : Step Result) := by
  cases fault <;> exact stopsWith_throw _

variable {formulaText modelText : Text}

/-- A pair is read if both texts are accepted. -/
theorem gives_readPair {pair : Session.Pair}
    (read : Session.readPair formulaText modelText = .ok pair) :
    Gives (readPair formulaText modelText) (.ok pair) := by
  unfold Session.readPair at read
  split at read
  · cases read
  next formula session readsFormula =>
  split at read
  · cases read
  next model later readsModel =>
  obtain rfl := Except.ok.inj read
  unfold readPair
  simp only [readsFormula, readsModel]
  exact gives_noteIf (gives_pure _) (gives_pure _)

/-- A fault that rejects a text ends the run with status 1; any other fault
breaks it off. -/
theorem stops_readPair {fault : Fault}
    (failed : Session.readPair formulaText modelText = .error fault) :
    StopsWith (if fault.isRejection then some 1 else none)
      (readPair formulaText modelText) := by
  have stops : StopsWith _ (failReading fault : Step Session.Pair) :=
    stops_failReading fault
  obtain ⟨ending, gives, isStatus⟩ := stops
  refine ⟨ending, ?_, isStatus⟩
  unfold Session.readPair at failed
  split at failed
  next other session readsFormula =>
    obtain rfl := Except.error.inj failed
    unfold readPair
    simp only [readsFormula]
    exact gives
  next formula session readsFormula =>
  split at failed
  next other later readsModel =>
    obtain rfl := Except.error.inj failed
    unfold readPair
    simp only [readsFormula, readsModel]
    exact gives_noteIf gives gives
  · cases failed

/-! ## Time limits -/

/-- The limit is a number of milliseconds. -/
def FiniteLimit (limit : Quantity) : Prop :=
  ∃ negative mantissa exponent, limitMilliseconds limit =
    .finite negative mantissa exponent

/-- The system can wait as long as the limit says. -/
def WaitableLimit (limit : Quantity) : Prop :=
  FiniteLimit limit ∧ (limitMilliseconds limit).exceeds longestWait = false

variable {limit : Quantity}

theorem gives_requireFiniteLimit (finite : FiniteLimit limit) :
    Gives (requireFiniteLimit limit) (.ok ()) := by
  obtain ⟨negative, mantissa, exponent, isFinite⟩ := finite
  simp only [requireFiniteLimit, isFinite]
  exact gives_pure _

theorem stops_requireFiniteLimit (endless : ¬FiniteLimit limit) :
    StopsWith none (requireFiniteLimit limit) := by
  unfold requireFiniteLimit
  split
  · exact stopsWith_throw _
  · exact stopsWith_throw _
  next isFinite => exact absurd ⟨_, _, _, isFinite⟩ endless

theorem gives_requireWaitableLimit (waitable : WaitableLimit limit) :
    Gives (requireWaitableLimit limit) (.ok ()) := by
  obtain ⟨finite, short⟩ := waitable
  refine (gives_requireFiniteLimit finite).bind ?_
  rw [short]
  exact gives_pure _

theorem stops_requireWaitableLimit (unwaitable : ¬WaitableLimit limit) :
    StopsWith none (requireWaitableLimit limit) := by
  by_cases finite : FiniteLimit limit
  · refine (gives_requireFiniteLimit finite).bind_stops ?_
    have long : (limitMilliseconds limit).exceeds longestWait = true := by
      by_contra short
      exact unwaitable ⟨finite, by simpa using short⟩
    rw [if_pos long]
    exact stopsWith_throw _
  · exact (stops_requireFiniteLimit finite).bind

/-! ## The theory root -/

section Root

variable {world : World} {path : Text} {root : Path}

theorem gives_look (seen : world.lookFault? path = none) :
    Gives (look world path) (.ok ()) := by
  simp only [look, seen]
  exact gives_pure _

theorem stops_look {kind : SystemFaultKind}
    (hidden : world.lookFault? path = some kind) :
    StopsWith none (look world path) := by
  simp only [look, hidden]
  exact stopsWith_throw _

def overridesPath (root : Path) : Text :=
  (root.child TheoryRoot.overridesName).text

/-- The bytes of the file with overrides, or none if there is no such file. -/
inductive HoldsOverrides (world : World) (root : Path) :
    Option (List UInt8) → Prop
  | file {bytes : List UInt8} : world.lookFault? (overridesPath root) = none →
      world.contents (overridesPath root) = .ok bytes →
      HoldsOverrides world root (some bytes)
  | absent {kind : SystemFaultKind} :
      world.lookFault? (overridesPath root) = none →
      world.contents (overridesPath root) = .error kind →
      kind.isAbsence = true →
      HoldsOverrides world root none

/-- There is a file with overrides, and it cannot be read. -/
structure HasUnreadableOverrides (world : World) (root : Path)
    (kind : SystemFaultKind) :
    Prop where
  seen : world.lookFault? (overridesPath root) = none
  refused : world.contents (overridesPath root) = .error kind
  present : kind.isAbsence = false

/-- A file with overrides is readable or absent, or it cannot be read, or the
system does not tell what is there. -/
theorem holdsOverrides_cases (world : World) (root : Path) :
    (∃ found, HoldsOverrides world root found) ∨
      (∃ kind, HasUnreadableOverrides world root kind) ∨
      ∃ kind, world.lookFault? (overridesPath root) = some kind := by
  cases seen : world.lookFault? (overridesPath root) with
  | some kind => exact .inr (.inr ⟨kind, rfl⟩)
  | none =>
      cases opened : world.contents (overridesPath root) with
      | ok bytes => exact .inl ⟨_, .file seen opened⟩
      | error kind =>
          cases absence : kind.isAbsence with
          | true => exact .inl ⟨_, .absent seen opened absence⟩
          | false => exact .inr (.inl ⟨kind, seen, opened, absence⟩)

theorem HoldsOverrides.gives {found : Option (List UInt8)}
    (holds : HoldsOverrides world root found) :
    Gives (theoryRoot world root) (.ok ⟨overridesPath root, found⟩) := by
  cases holds with
  | file seen opened =>
      rw [overridesPath] at opened
      simp only [theoryRoot, opened]
      exact (gives_look seen).bind (gives_pure _)
  | absent seen refused absence =>
      rw [overridesPath] at refused
      simp only [theoryRoot, refused, absence]
      exact (gives_look seen).bind (gives_pure _)

/-- A file with overrides that is there and cannot be read is a fault of the
environment. -/
theorem HasUnreadableOverrides.stops {kind : SystemFaultKind}
    (unreadable : HasUnreadableOverrides world root kind) :
    StopsWith (some 3) (theoryRoot world root) := by
  obtain ⟨seen, refused, present⟩ := unreadable
  rw [overridesPath] at refused
  simp only [theoryRoot, refused, present]
  exact (gives_look seen).bind_stops (stopsWith_throw _)

end Root

/-! ## Theories -/

section Theory

variable {root : TheoryRoot} {config : Config} {pair : Session.Pair}
  {operators : OperatorTable}

theorem gives_operators (found : root.operators = .ok operators) :
    Gives (Run.operators root) (.ok operators) := by
  simp only [Run.operators, found]
  exact gives_pure _

theorem gives_theoryText {obligation : Obligation}
    (found : root.operators = .ok operators)
    (translated : Obligation.ofPair operators pair = .ok obligation) :
    Gives (theoryText root config pair)
      (.ok (obligation.theoryText config)) := by
  refine (gives_operators found).bind ?_
  simp only [translated]
  exact gives_noteIf (gives_noteIf (gives_pure _) (gives_pure _)) (gives_pure _)

theorem stops_theoryText_of_unsupported {fault : Unsupported}
    (found : root.operators = .ok operators)
    (unsupported : Obligation.ofPair operators pair = .error fault) :
    StopsWith (some 1) (theoryText root config pair) := by
  have last : Gives (failUnsupported fault : Step Text)
      (.error (.malformedInput fault.message)) :=
    gives_throw _
  refine (gives_operators found).bind_stops ⟨.malformedInput fault.message,
    ?_, rfl⟩
  simp only [unsupported]
  exact gives_noteIf (gives_noteIf last last) last

theorem stops_theoryText_of_unreadable {path : Text}
    (unreadable : root.operators = .error (.unreadable path)) :
    StopsWith (some 3) (theoryText root config pair) := by
  have stops : StopsWith (some 3) (Run.operators root) := by
    simp only [Run.operators, unreadable]
    exact stopsWith_throw _
  exact stops.bind

theorem stops_theoryText_of_malformed {fault : OperatorTable.OverrideFault}
    (malformed : root.operators = .error (.malformed fault)) :
    StopsWith none (theoryText root config pair) := by
  have stops : StopsWith none (Run.operators root) := by
    simp only [Run.operators, malformed]
    exact stopsWith_throw _
  exact stops.bind

end Theory

/-! ## The prover -/

def Encodable (theory : Text) : Prop :=
  ∀ point ∈ theory, point.isSurrogate = false

theorem isSome_encodePoint?_iff {point : CodePoint} :
    (Text.encodePoint? point).isSome = true ↔ point.isSurrogate = false := by
  unfold Text.encodePoint?
  dsimp only
  split
  next surrogate => simp [surrogate]
  next scalar => split_ifs <;> simpa using scalar

/-- A theory has no bytes exactly if it holds a surrogate. -/
theorem isNone_encodeUtf8?_iff {theory : Text} :
    (Text.encodeUtf8? theory).isNone = true ↔ ¬Encodable theory := by
  unfold Text.encodeUtf8?
  rw [Option.isNone_map]
  induction theory with
  | nil => simp [Encodable]
  | cons point others inductionHypothesis =>
      have encodable_iff : Encodable (point :: others) ↔
          (Text.encodePoint? point).isSome = true ∧ Encodable others := by
        rw [isSome_encodePoint?_iff]
        exact List.forall_mem_cons
      rw [encodable_iff, List.mapM_cons]
      cases Text.encodePoint? point with
      | none => simp
      | some bytes =>
          cases rest : others.mapM Text.encodePoint? with
          | none => simpa [rest] using inductionHypothesis
          | some more => simpa [rest] using inductionHypothesis

section Prover

variable {world : World} {root : Path} {config : Config} {theory : Text}
  {run : ProverRun}

/-- The prover runs on the theory, and the program can wait for it. -/
structure Proves (world : World) (config : Config) (root : Path) (theory : Text)
    (run : ProverRun) : Prop where
  seen : world.lookFault? root.text = none
  directory : world.isDirectory root.text = true
  encodable : Encodable theory
  answered : world.prove (config.command root.text) theory config.timeout =
      .ok run
  waitable : WaitableLimit config.timeout

/-- With a theory root and a theory that can be written, all depends on how the
prover runs. -/
theorem gives_prove_of_ready (seen : world.lookFault? root.text = none)
    (directory : world.isDirectory root.text = true)
    (encodable : Encodable theory) {result : Except Ending ProverRun}
    (gives : Gives
      (match world.prove (config.command root.text) theory config.timeout with
      | .error kind =>
        throw (.unusableEnvironment
          (startMessage config.isabelle ⟨kind, config.isabelle⟩))
      | .ok run => do
        requireWaitableLimit config.timeout
        if run.ending = .timedOut
          then note .warning (timeoutMessage config.timeout)
        return run) result) :
    Gives (prove world config root theory) result := by
  have written : ¬(Text.encodeUtf8? theory).isNone = true := by
    rw [isNone_encodeUtf8?_iff, not_not]
    exact encodable
  unfold prove
  rw [directory, if_neg written]
  exact (gives_look seen).bind ((gives_note _ _).bind gives)

theorem gives_prove (proves : Proves world config root theory run) :
    Gives (prove world config root theory) (.ok run) := by
  refine gives_prove_of_ready proves.seen proves.directory proves.encodable ?_
  simp only [proves.answered]
  refine (gives_requireWaitableLimit proves.waitable).bind ?_
  exact gives_noteIf (gives_pure _) (gives_pure _)

theorem stops_prove_of_hidden {kind : SystemFaultKind}
    (hidden : world.lookFault? root.text = some kind) :
    StopsWith none (prove world config root theory) := by
  unfold prove
  exact (stops_look hidden).bind

/-- The run breaks off at a hidden theory root, whatever comes later. -/
theorem breaksOff_prove (later : world.lookFault? root.text = none →
      StopsWith none (prove world config root theory)) :
    StopsWith none (prove world config root theory) := by
  cases seen : world.lookFault? root.text with
  | none => exact later seen
  | some kind => exact stops_prove_of_hidden seen

theorem stops_prove_of_noDirectory (seen : world.lookFault? root.text = none)
    (missing : world.isDirectory root.text = false) :
    StopsWith (some 3) (prove world config root theory) := by
  unfold prove
  rw [missing]
  exact (gives_look seen).bind_stops (stopsWith_throw _).bind

theorem stops_prove_of_surrogate (seen : world.lookFault? root.text = none)
    (directory : world.isDirectory root.text = true)
    (unencodable : ¬Encodable theory) :
    StopsWith none (prove world config root theory) := by
  unfold prove
  rw [directory, if_pos (isNone_encodeUtf8?_iff.mpr unencodable)]
  exact (gives_look seen).bind_stops (stopsWith_throw _).bind

theorem stops_prove_of_unstarted (seen : world.lookFault? root.text = none)
    (directory : world.isDirectory root.text = true)
    (encodable : Encodable theory) {kind : SystemFaultKind}
    (refused : world.prove (config.command root.text) theory config.timeout =
      .error kind) :
    StopsWith (some 3) (prove world config root theory) := by
  refine ⟨.unusableEnvironment
    (startMessage config.isabelle ⟨kind, config.isabelle⟩),
    gives_prove_of_ready seen directory encodable ?_, rfl⟩
  rw [refused]
  exact gives_throw _

/-- A time limit that the system cannot wait for breaks the run off after the
prover has started. -/
theorem stops_prove_of_unwaitable (seen : world.lookFault? root.text = none)
    (directory : world.isDirectory root.text = true)
    (encodable : Encodable theory)
    (answered : world.prove (config.command root.text) theory config.timeout =
      .ok run)
    (unwaitable : ¬WaitableLimit config.timeout) :
    StopsWith none (prove world config root theory) := by
  obtain ⟨ending, gives, isStatus⟩ := stops_requireWaitableLimit unwaitable
  refine ⟨ending, gives_prove_of_ready seen directory encodable ?_, isStatus⟩
  rw [answered]
  exact gives.stop

/-- The prover's step gives a run or stops. -/
theorem prove_cases (world : World) (config : Config) (root : Path)
    (theory : Text) :
    (∃ run, Proves world config root theory run) ∨
      ∃ status, StopsWith status (prove world config root theory) := by
  cases seen : world.lookFault? root.text with
  | some kind => exact .inr ⟨_, stops_prove_of_hidden seen⟩
  | none =>
  by_cases directory : world.isDirectory root.text = true
  · by_cases encodable : Encodable theory
    · cases answered :
      world.prove (config.command root.text) theory config.timeout with
      | error kind =>
        exact .inr ⟨_, stops_prove_of_unstarted seen directory encodable
          answered⟩
      | ok run =>
          by_cases waitable : WaitableLimit config.timeout
          · exact .inl ⟨run, seen, directory, encodable, answered, waitable⟩
          · exact .inr
              ⟨_, stops_prove_of_unwaitable seen directory encodable answered
                waitable⟩
    · exact .inr ⟨_, stops_prove_of_surrogate seen directory encodable⟩
  · exact .inr ⟨_, stops_prove_of_noDirectory seen (by simpa using directory)⟩

theorem gives_judgeTheory {verdict : Verdict}
    (proves : Proves world config root theory run)
    (judged : run.verdict Validation.checkerName = .ok verdict) :
    Gives (judgeTheory world config root theory) (.ok verdict.kind) := by
  refine (gives_prove proves).bind ?_
  simp only [judged]
  exact (gives_note _ _).bind (gives_pure _)

theorem stops_judgeTheory_of_rejected {rejected : RejectedRun}
    (proves : Proves world config root theory run)
    (unjudged : run.verdict Validation.checkerName = .error rejected) :
    StopsWith (some 4) (judgeTheory world config root theory) := by
  refine (gives_prove proves).bind_stops ?_
  simp only [unjudged]
  exact stopsWith_throw _

/-- Judging a theory always comes to a result. -/
theorem exists_gives_judgeTheory (world : World) (config : Config) (root : Path)
    (theory : Text) :
    ∃ result, Gives (judgeTheory world config root theory) result := by
  rcases prove_cases world config root theory
    with ⟨run, proves⟩ | ⟨status, stops⟩
  · cases judged : run.verdict Validation.checkerName with
    | ok verdict => exact ⟨_, gives_judgeTheory proves judged⟩
    | error rejected =>
        obtain ⟨ending, gives, _⟩ := stops_judgeTheory_of_rejected proves judged
        exact ⟨_, gives⟩
  · obtain ⟨ending, gives, _⟩ := stops
    exact ⟨_, gives.stop⟩

/-! ## Keeping the theory -/

theorem gives_keep {path : Text}
    (writable : world.writeFault? (Path.ofText path).text = none)
    (encodable : Encodable theory) :
    Gives (keep world path theory) (.ok ((Path.ofText path).text, theory)) := by
  have written : ¬(Text.encodeUtf8? theory).isNone = true := by
    rw [isNone_encodeUtf8?_iff, not_not]
    exact encodable
  simp only [keep, writable, if_neg written]
  exact (gives_note _ _).bind (gives_pure _)

theorem stops_keep_of_unwritable {path : Text} {kind : SystemFaultKind}
    (refused : world.writeFault? (Path.ofText path).text = some kind) :
    StopsWith none (keep world path theory) := by
  simp only [keep, refused]
  exact stopsWith_throw _

theorem stops_keep_of_surrogate (path : Text)
    (unencodable : ¬Encodable theory) :
    StopsWith none (keep world path theory) := by
  cases refused : world.writeFault? (Path.ofText path).text with
  | some kind => exact stops_keep_of_unwritable refused
  | none =>
      simp only [keep, refused, if_pos (isNone_encodeUtf8?_iff.mpr unencodable)]
      exact (stopsWith_throw _).bind

/-- A theory is kept where it should be, or keeping it breaks the run off. -/
theorem keep_cases (world : World) (wanted : Option Text) (theory : Text) :
    (∃ written, Gives (wanted.mapM fun path => keep world path theory)
        (.ok written)) ∨
      ∃ path, wanted = some path ∧ StopsWith none (keep world path theory) := by
  cases wanted with
  | none => exact .inl ⟨none, gives_pure _⟩
  | some path =>
      cases refused : world.writeFault? (Path.ofText path).text with
      | some kind => exact .inr ⟨path, rfl, stops_keep_of_unwritable refused⟩
      | none =>
          by_cases encodable : Encodable theory
          · exact .inl ⟨_, (gives_keep refused encodable).bind (gives_pure _)⟩
          · exact .inr ⟨path, rfl, stops_keep_of_surrogate path encodable⟩

end Prover

end ModelAudit.Run
