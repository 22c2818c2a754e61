import ModelAudit.Proofs.QuotedText

/-!
# Where a theory prints that its goal is proved

The words that a theory prints once its lemma is accepted hold no quote and no
end of a line. So they occur in a text only if they occur in a piece of it
between such points. No piece of a lemma that can stand between its quotes holds
them.
-/

namespace ModelAudit

/-! ## Occurrences -/

namespace Text

/-- The word occurs in the text after the given part of it, and nowhere else. -/
structure OccursOnce (word before text : Text) : Prop where
  occurs : before ++ word <+: text
  unique : ∀ other, other ++ word <+: text → other = before

variable {word left right other rest : Text} {point : CodePoint}

/-- A word stands on one side of a point that it does not hold. -/
theorem apart_of_not_mem (foreign : point ∉ word)
    (same : other ++ word ++ rest = left ++ point :: right) :
    (∃ between, left = other ++ word ++ between) ∨
      ∃ between, other = left ++ point :: between ∧
        between ++ word ++ rest = right := by
  rcases List.append_eq_append_iff.mp same
    with ⟨between, inside, _⟩ | ⟨crossed, whole, tail⟩
  · exact .inl ⟨between, inside⟩
  · cases crossed with
    | nil => exact .inl ⟨[], by rw [List.append_nil, whole, List.append_nil]⟩
    | cons first crossed =>
        obtain ⟨rfl, rfl⟩ := List.cons.inj tail
        rcases List.append_eq_append_iff.mp whole
          with ⟨start, _, shape⟩ | ⟨start, shape, tail⟩
        · rw [shape] at foreign
          exact (foreign (List.mem_append_right _ List.mem_cons_self)).elim
        · cases start with
          | nil =>
              have starts : point :: crossed = word := tail
              rw [← starts] at foreign
              exact (foreign List.mem_cons_self).elim
          | cons first start =>
              obtain ⟨rfl, rfl⟩ := List.cons.inj tail
              exact .inr ⟨start, shape, rfl⟩

theorem not_infix_append_cons (foreign : point ∉ word)
    (leftFree : ¬word <:+: left) (rightFree : ¬word <:+: right) :
    ¬word <:+: left ++ point :: right := by
  rintro ⟨start, rest, same⟩
  rcases apart_of_not_mem foreign same
    with ⟨between, rfl⟩ | ⟨between, _, inside⟩
  · exact leftFree ⟨start, between, rfl⟩
  · exact rightFree ⟨between, rest, inside⟩

/-- A word without the point between two texts stands in one of them. -/
theorem infix_append_cons_iff (foreign : point ∉ word) :
    word <:+: left ++ point :: right ↔ word <:+: left ∨ word <:+: right := by
  constructor
  · intro inside
    by_contra outside
    obtain ⟨leftFree, rightFree⟩ := not_or.mp outside
    exact not_infix_append_cons foreign leftFree rightFree inside
  · rintro (inside | inside)
    · exact inside.trans (List.prefix_append left _).isInfix
    · exact inside.trans
        ((List.suffix_cons point right).trans
          (List.suffix_append left _)).isInfix

/-- Between two points that it does not hold, a word occurs once if it occurs
nowhere outside of them. -/
theorem occursOnce_between (foreign : point ∉ word) (leftFree : ¬word <:+: left)
    (rightFree : ¬word <:+: right) :
    word.OccursOnce (left ++ [point])
      (left ++ point :: (word ++ point :: right)) where
  occurs := ⟨point :: right, by simp⟩
  unique other := by
    rintro ⟨rest, same⟩
    rcases apart_of_not_mem foreign same
      with ⟨between, rfl⟩ | ⟨between, rfl, inside⟩
    · exact absurd ⟨other, between, rfl⟩ leftFree
    rcases apart_of_not_mem foreign inside with ⟨_, whole⟩ | ⟨later, _, outside⟩
    · have count := congrArg List.length whole
      simp only [List.length_append] at count
      obtain rfl : between = [] := List.length_eq_zero_iff.mp (by omega)
      rfl
    · exact absurd ⟨later, rest, outside⟩ rightFree

theorem join_append {separator : Text} {parts others : List Text}
    (nonempty : parts ≠ []) (othersNonempty : others ≠ []) :
    join separator (parts ++ others) =
      join separator parts ++ separator ++ join separator others := by
  induction parts with
  | nil => exact absurd rfl nonempty
  | cons part parts inductionHypothesis =>
      cases parts with
      | nil =>
          rw [List.singleton_append, join,
            List.intercalate_cons_of_ne_nil othersNonempty, join,
            List.intercalate_singleton, join]
      | cons next parts =>
          have later := inductionHypothesis (List.cons_ne_nil _ _)
          simp only [join, List.cons_append, List.intercalate_cons_cons,
            List.append_assoc]
            at later ⊢
          rw [later]

theorem mentions_iff : mentions word left = true ↔ word <:+: left := by
  induction left with
  | nil => rw [mentions, List.isEmpty_iff, List.infix_nil]
  | cons first rest inductionHypothesis =>
      rw [mentions, Bool.or_eq_true, inductionHypothesis,
        List.isPrefixOf_iff_prefix, List.infix_cons_iff]

theorem not_infix_of_mentions (absent : mentions word left = false) :
    ¬word <:+: left := by
  rw [← mentions_iff, absent]
  exact Bool.false_ne_true

end Text

/-! ## Silent texts -/

open Glance

namespace Theory

/-- The text does not hold what a theory prints once its lemma is accepted. -/
def Silent (text : Text) : Prop :=
  ¬provedMarker <:+: text

variable {before after : Glance} {lead text left right : Text}

theorem silent_of_passes (passes : Passes before text after) : Silent text :=
  passes.not_infix stops_provedMarker

theorem Silent.quote (leftSilent : Silent left) (rightSilent : Silent right) :
    Silent (left ++ "\"" ++ right) := by
  rw [List.append_assoc]
  exact Text.not_infix_append_cons (by decide) leftSilent rightSilent

theorem Silent.newline (leftSilent : Silent left) (rightSilent : Silent right) :
    Silent (left ++ "\n" ++ right) := by
  rw [List.append_assoc]
  exact Text.not_infix_append_cons (by decide) leftSilent rightSilent

theorem silent_nil : Silent [] :=
  silent_of_passes (rfl : Passes .other [] .other)

theorem silent_inQuotes (leadSilent : Silent lead) (textSilent : Silent text) :
    Silent (lead ++ Lemma.inQuotes text) := by
  have whole := (leadSilent.quote textSilent).quote silent_nil
  simpa only [Lemma.inQuotes, List.append_assoc, List.append_nil] using whole

/-- Joined texts print no marker if none of them does and none arises where they
meet. -/
theorem silent_join {separator : Text}
    (separates : ∀ {left right}, Silent left → Silent right →
      Silent (left ++ separator ++ right))
    {parts : List Text} (silent : ∀ part ∈ parts, Silent part) :
    Silent (Text.join separator parts) := by
  induction parts with
  | nil => exact silent_nil
  | cons part parts inductionHypothesis =>
      obtain ⟨here, later⟩ := List.forall_mem_cons.mp silent
      cases parts with
      | nil =>
          rw [Text.join, List.intercalate_singleton]
          exact here
      | cons next parts =>
          rw [Text.join, List.intercalate_cons_cons]
          exact separates here (inductionHypothesis later)

theorem Silent.paragraph (leftSilent : Silent left)
    (rightSilent : Silent right) :
    Silent (left ++ "\n\n" ++ right) := by
  have blank : ("\n\n" : Text) = "\n" ++ "\n" := by decide
  have line : Silent (left ++ "\n") := by
    simpa only [List.append_nil] using leftSilent.newline silent_nil
  rw [blank, ← List.append_assoc]
  exact line.newline rightSilent

/-- The code points of a text are found faster in a list of characters than in a
string. -/
theorem silent_ofString {characters : List Char}
    (absent : Text.mentions provedMarker (characters.map CodePoint.ofChar) =
      false) :
    Silent (Text.ofString (String.ofList characters)) := by
  rw [Text.ofString, String.toList_ofList]
  exact Text.not_infix_of_mentions absent

end Theory

/-! ## Lemmas -/

namespace Lemma

open Theory

/-- The scanner passes all that the lemma is made of, so the parts between
quotes can stand there. -/
structure Inert (statement : Lemma) : Prop where
  name : Passes .other statement.name .other
  fixes : ∀ fix ∈ statement.fixes, Passes .other fix.fst .other ∧
      Passes .other fix.snd .other
  assumptions :
      ∀ assumption ∈ statement.assumptions,
        Passes .other assumption.fst .other ∧
    ∀ proposition ∈ assumption.snd, Passes .other proposition .other
  goal : Passes .other statement.goal .other
  facts : ∀ fact ∈ statement.facts, ∀ before, Passes before fact .other
  method : Passes .other statement.method .other

variable {statement : Lemma}

theorem exists_of_mem_mapM? {Source Result : Type}
    {image : Source → Option Result} {sources : List Source}
    {results : List Result} (mapped : sources.mapM image = some results)
    {result : Result} (member : result ∈ results) :
    ∃ source ∈ sources, image source = some result := by
  induction sources generalizing results with
  | nil =>
      obtain rfl := Option.some.inj mapped
      cases member
  | cons first others inductionHypothesis =>
      rw [List.mapM_cons] at mapped
      obtain ⟨head, headShape, mapped⟩ := Option.bind_eq_some_iff.mp mapped
      obtain ⟨tail, tailShape, mapped⟩ := Option.bind_eq_some_iff.mp mapped
      obtain rfl := Option.some.inj mapped
      rcases List.mem_cons.mp member with rfl | later
      · exact ⟨first, List.mem_cons_self, headShape⟩
      · obtain ⟨source, inside, shape⟩ := inductionHypothesis tailShape later
        exact ⟨source, List.mem_cons_of_mem _ inside, shape⟩

/-- A line of a clause, whatever stands before its entry. -/
def Follows (entry : Text) : Prop :=
  ∀ lead, Passes .other lead .other → Silent (lead ++ entry)

theorem silent_withLead {keyword : Text} {entries : List Text}
    (keywordPasses : Passes .other keyword .other)
    (follows : ∀ entry ∈ entries, Follows entry) :
    ∀ line ∈ withLead keyword entries, Silent line := by
  cases entries with
  | nil => exact fun _ member => absurd member List.not_mem_nil
  | cons first others =>
      obtain ⟨firstFollows, othersFollow⟩ := List.forall_mem_cons.mp follows
      have margin : Passes .other "  " .other := by decide
      have blank : Passes .other " " .other := by decide
      have conjunction : Passes .other "    and " .other := by decide
      refine List.forall_mem_cons.mpr
        ⟨?_, List.forall_mem_map.mpr fun entry member => ?_⟩
      · exact firstFollows _ ((margin.append keywordPasses).append blank)
      · exact othersFollow entry member _ conjunction

theorem Inert.follows_fix (inert : statement.Inert) {fix : Text × Text}
    (member : fix ∈ statement.fixes) :
    Follows (fix.fst ++ " :: " ++ inQuotes fix.snd) := by
  intro lead leadPasses
  obtain ⟨name, type⟩ := inert.fixes fix member
  have mark : Passes .other " :: " .colonBlank := by decide
  rw [← List.append_assoc, ← List.append_assoc]
  exact silent_inQuotes
    (silent_of_passes ((leadPasses.append name).append mark))
    (silent_of_passes type)

/-- Propositions in quotes, each on a line of its own. -/
theorem silent_propositions {lead : Text} (leadSilent : Silent lead)
    {propositions : List Text}
    (passes : ∀ proposition ∈ propositions, Passes .other proposition .other) :
    Silent (lead ++ Text.join "\n      " (propositions.map inQuotes)) := by
  induction propositions generalizing lead with
  | nil => simpa [Text.join] using leadSilent
  | cons proposition propositions inductionHypothesis =>
      obtain ⟨here, later⟩ := List.forall_mem_cons.mp passes
      have first := silent_inQuotes leadSilent (silent_of_passes here)
      cases propositions with
      | nil => simpa [Text.join] using first
      | cons next propositions =>
          have margin : Passes .other "      " .other := by decide
          have others := inductionHypothesis (silent_of_passes margin) later
          have separator : ("\n      " : Text) = "\n" ++ "      " := by decide
          have whole := first.newline others
          simp only [Text.join, List.map_cons, List.intercalate_cons_cons]
            at whole ⊢
          simpa only [separator, List.append_assoc] using whole

theorem Inert.follows_assumption (inert : statement.Inert)
    {assumption : Text × List Text} {text : Text}
    (member : assumption ∈ statement.assumptions)
    (shape : assumptionText? assumption = some text) : Follows text := by
  intro lead leadPasses
  obtain ⟨label, propositions⟩ := inert.assumptions assumption member
  unfold assumptionText? at shape
  split at shape
  · cases shape
  · next first others listed =>
    obtain rfl := Option.some.inj shape
    have colon : Passes .other ": " .colonBlank := by decide
    rw [← List.append_assoc, ← List.append_assoc, ← listed]
    exact silent_propositions
      (silent_of_passes ((leadPasses.append label).append colon)) propositions

theorem passes_words {facts : List Text} (nonempty : facts ≠ [])
    (passes : ∀ fact ∈ facts, ∀ before, Passes before fact .other)
    (before : Glance) :
    Passes before (Text.words facts) .other := by
  have blank : Passes .other " " .other := by decide
  cases facts with
  | nil => exact absurd rfl nonempty
  | cons first others =>
      obtain ⟨here, later⟩ := List.forall_mem_cons.mp passes
      cases others with
      | nil =>
          rw [Text.words, Text.join, List.intercalate_singleton]
          exact here before
      | cons next others =>
          rw [Text.words, Text.join, List.intercalate_cons_cons]
          exact ((here before).append blank).append
            (passes_join blank fun fact member => later fact member .other)

theorem Inert.passes_proof (inert : statement.Inert) :
    Passes .other statement.proof .other := by
  have closing : Passes .other ")" .other := by decide
  unfold proof
  split
  · exact inert.method
  · next some =>
    have facts := passes_words (by simpa using some) inert.facts .colonBlank
    split
    · have auto : Passes .other "(auto simp add: " .colonBlank := by decide
      exact (auto.append facts).append closing
    · have simp : Passes .other "(simp add: " .colonBlank := by decide
      exact (simp.append facts).append closing

/-- An inert lemma prints no marker, whatever stands between its quotes. -/
theorem Inert.silent_text (inert : statement.Inert) {text : Text}
    (shape : statement.text? = some text) : Silent text := by
  obtain ⟨assumptions, translated, shape⟩ := Option.bind_eq_some_iff.mp shape
  obtain rfl := Option.some.inj shape
  have opening : Passes .other "lemma " .other := by decide
  have colon : Passes .other ":" .colon := by decide
  have shows' : Passes .other "  shows " .other := by decide
  have applies : Passes .other "  apply " .other := by decide
  have done' : Passes .other "  done" .other := by decide
  refine silent_join Silent.newline ?_
  simp only [List.forall_mem_append, List.forall_mem_cons, List.not_mem_nil,
    false_implies, implies_true, and_true]
  refine ⟨⟨⟨?_, ?_⟩, ?_⟩, ?_, ?_, ?_⟩
  · exact silent_of_passes ((opening.append inert.name).append colon)
  · refine silent_withLead (by decide)
      (List.forall_mem_map.mpr fun fix member => ?_)
    exact inert.follows_fix member
  · refine silent_withLead (by decide) fun entry member => ?_
    obtain ⟨assumption, inside, shape⟩ := exists_of_mem_mapM? translated member
    exact inert.follows_assumption inside shape
  · exact silent_inQuotes (silent_of_passes shows')
      (silent_of_passes inert.goal)
  · exact silent_of_passes (applies.append inert.passes_proof)
  · exact silent_of_passes done'

theorem done_of_text? {text : Text} (shape : statement.text? = some text) :
    "\n  done" <:+ text := by
  obtain ⟨assumptions, _, shape⟩ := Option.bind_eq_some_iff.mp shape
  obtain rfl := Option.some.inj shape
  have lines (others : List Text) (shows' applies done' : Text) :
      others ++ [shows', applies, done'] =
        (others ++ [shows', applies]) ++ [done'] := by
    simp
  have last : ("\n  done" : Text) = "\n" ++ Text.join "\n" ["  done"] := by
    decide
  rw [lines, Text.join_append (by simp) (by simp), last, List.append_assoc]
  exact List.suffix_append _ _

end Lemma

/-! ## Theories -/

namespace Theory

/-- What stands before the definitions of a theory. -/
def header (name : Text) (imports : List Text) : Text :=
  "theory " ++ name ++ "\n  imports " ++ Text.words
    (imports.map importText) ++ "\nbegin"

/-- What stands before the lemma of a theory. -/
def lead (theory : Theory) : Text :=
  Text.join "\n\n"
    (header theory.name theory.imports :: theory.prelude) ++ "\n\n"

/-- What stands between the lemma and the marker. -/
def markerLead : Text :=
  "\n\nML \\<open>writeln \""

/-- No part of a theory can leave its quotes, and the theory holds its marker
only after the end of the lemma's proof. -/
structure IsContained (theory : Theory) : Prop where
  fixes : ∀ fix ∈ theory.statement.fixes, fix.fst.IsQuotable ∧
      fix.snd.IsQuotable
  assumptions : ∀ assumption ∈ theory.statement.assumptions,
    ∀ proposition ∈ assumption.snd, proposition.IsQuotable
  goal : theory.statement.goal.IsQuotable
  marker : ∃ statementText text, theory.statement.text? = some statementText ∧
    "\n  done" <:+ statementText ∧ theory.text? = some text ∧
    provedMarker.OccursOnce (theory.lead ++ statementText ++ markerLead) text

variable {theory : Theory} {statementText : Text}

/-- A theory is its lead, the lemma, and the marker behind it. -/
theorem text?_eq (shape : theory.statement.text? = some statementText) :
    theory.text? =
        some (theory.lead ++ statementText ++ markerLead ++ provedMarker ++
      "\"\\<close>\n\nend\n") := by
  have opening : markerLead = "\n\n" ++ "ML \\<open>writeln \"" := by decide
  have closing : ("\"\\<close>\n\nend\n" : Text) =
      "\"\\<close>" ++ ("\n\n" ++ ("end" ++ "\n")) := by
    decide
  rw [text?, shape]
  refine congrArg some ?_
  rw [Text.join_append (by simp) (by simp), opening, closing]
  simp only [lead, header, Text.join, List.intercalate_cons_cons,
    List.intercalate_singleton, List.singleton_append, List.append_assoc]

/-- A theory whose pieces do not hold the marker holds it once. -/
theorem occursOnce_provedMarker
    (headerSilent : Silent (header theory.name theory.imports))
    (preludeSilent : ∀ definition ∈ theory.prelude, Silent definition)
    (statementSilent : Silent statementText) :
    provedMarker.OccursOnce (theory.lead ++ statementText ++ markerLead)
      (theory.lead ++ statementText ++ markerLead ++ provedMarker ++
        "\"\\<close>\n\nend\n") := by
  have opening : markerLead = "\n\n" ++ "ML \\<open>writeln " ++ "\"" := by
    decide
  have closing :
      ("\"\\<close>\n\nend\n" : Text) = "\"" ++ "\\<close>\n\nend\n" := by
        decide
  have preceding : Silent
      (Text.join "\n\n"
        (header theory.name theory.imports :: theory.prelude)) :=
    silent_join Silent.paragraph
      (List.forall_mem_cons.mpr ⟨headerSilent, preludeSilent⟩)
  have printing : Silent "ML \\<open>writeln " :=
    Text.not_infix_of_mentions (by decide)
  have ending : Silent "\\<close>\n\nend\n" :=
    Text.not_infix_of_mentions (by decide)
  have foreign : CodePoint.ofChar '"' ∉ provedMarker := by decide
  have once := Text.occursOnce_between foreign
    ((preceding.paragraph statementSilent).paragraph printing) ending
  have quote : ("\"" : Text) = [CodePoint.ofChar '"'] := by decide
  rw [opening, closing, quote]
  simpa only [lead, List.append_assoc, List.cons_append, List.nil_append]
    using once

/-- A theory is contained if its lemma is inert and nothing before the lemma
prints the marker. -/
theorem isContained_of_inert
    (headerSilent : Silent (header theory.name theory.imports))
    (preludeSilent : ∀ definition ∈ theory.prelude, Silent definition)
    (inert : theory.statement.Inert)
    (shape : theory.statement.text? = some statementText) :
    theory.IsContained where
  fixes fix member :=
    (inert.fixes fix member).imp Passes.isQuotable Passes.isQuotable
  assumptions assumption member proposition inside :=
    ((inert.assumptions assumption member).2 proposition inside).isQuotable
  goal := inert.goal.isQuotable
  marker := ⟨statementText, _, shape, Lemma.done_of_text? shape, text?_eq shape,
    occursOnce_provedMarker headerSilent preludeSilent
      (inert.silent_text shape)⟩

end Theory

end ModelAudit
