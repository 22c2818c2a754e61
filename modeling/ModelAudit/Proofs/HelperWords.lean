import Mathlib.Data.List.Basic
import ModelAudit.Hol.Helper
import ModelAudit.Proofs.InnerSyntax

/-!
# Words of helpers in texts

A text consists of words and of what separates them. Its words are those of its
pieces, wherever a separator stands between these.
-/

namespace ModelAudit

/-- How the constants of helpers begin. -/
def Helper.mark : Text :=
  "smt_"

namespace Text

def isSeparator (point : CodePoint) : Bool :=
  !InnerSyntax.isWordPart point

/-- The words of a text: its longest runs without separators. -/
def runs (text : Text) : List Text :=
  (text.splitOnP isSeparator).filter fun word => !word.isEmpty

/-- The words of the text that begin as constants of helpers do are among
these. -/
def UsesOnly (allowed : Text → Prop) (text : Text) : Prop :=
  ∀ word ∈ runs text, Helper.mark <+: word → allowed word

instance (allowed : Text → Prop) [DecidablePred allowed] (text : Text) :
    Decidable (text.UsesOnly allowed) :=
  inferInstanceAs
    (Decidable (∀ word ∈ runs text, Helper.mark <+: word → allowed word))

/-- The text has no such words, and begins and ends with a separator. -/
structure IsMark (text : Text) : Prop where
  first : text.head?.any isSeparator = true
  last : text.getLast?.any isSeparator = true
  plain : text.UsesOnly fun _ => False

instance (text : Text) : Decidable text.IsMark :=
  decidable_of_iff (text.head?.any isSeparator = true ∧
    text.getLast?.any isSeparator = true ∧
    text.UsesOnly fun _ => False) ⟨fun ⟨first, last, plain⟩ =>
      ⟨first, last, plain⟩,
      fun ⟨first, last, plain⟩ => ⟨first, last, plain⟩⟩

variable {allowed : Text → Prop} {text left right mark separator : Text}

/-! ## Words of pieces -/

theorem runs_append_cons {point : CodePoint}
    (separates : isSeparator point = true) (left right : Text) :
    runs (left ++ point :: right) = runs left ++ runs right := by
  rw [runs, List.splitOnP_append_cons left right separates, List.filter_append,
    runs, runs]

theorem runs_cons {point : CodePoint} (separates : isSeparator point = true)
    (text : Text) :
    runs (point :: text) = runs text := by
  simpa [runs] using runs_append_cons separates [] text

/-- A text that starts with a separator adds words of its own. -/
theorem runs_append_of_first (first : right.head?.all isSeparator = true) :
    runs (left ++ right) = runs left ++ runs right := by
  cases right with
  | nil => simp [runs]
  | cons point rest => rw [runs_append_cons first, runs_cons first]

theorem runs_append_of_last (last : left.getLast?.all isSeparator = true) :
    runs (left ++ right) = runs left ++ runs right := by
  rcases left.eq_nil_or_concat with rfl | ⟨start, point, rfl⟩
  · simp [runs]
  · have separates : isSeparator point = true := by simpa using last
    have alone := runs_append_cons separates start []
    rw [List.concat_eq_append, List.append_assoc, List.singleton_append,
      runs_append_cons separates, alone]
    simp [runs]

theorem runs_of_forall_isWordPart
    (word : ∀ point ∈ text, InnerSyntax.isWordPart point = true) :
    ∀ run ∈ runs text, run = text := by
  intro run member
  have single : text.splitOnP isSeparator = [text] :=
    List.splitOnP_eq_singleton fun point inside => by
      simp [isSeparator, word point inside]
  rw [runs, single] at member
  exact List.mem_singleton.mp (List.mem_of_mem_filter member)

private theorem mem_of_mem_splitOnP : ∀ piece ∈ text.splitOnP isSeparator,
    ∀ point ∈ piece, point ∈ text := by
  induction text with
  | nil => simp [List.splitOnP_nil]
  | cons first rest inductionHypothesis =>
      rw [List.splitOnP_cons_eq_if_modifyHead]
      obtain ⟨piece, pieces, shape⟩ :=
        List.exists_cons_of_ne_nil (List.splitOnP_ne_nil isSeparator rest)
      rw [shape] at inductionHypothesis ⊢
      split
      · grind
      · rw [List.modifyHead_cons]
        grind

/-- Words are made of points of the text. -/
theorem mem_of_mem_runs {run : Text} (member : run ∈ runs text) :
    ∀ point ∈ run, point ∈ text :=
  mem_of_mem_splitOnP run (List.mem_of_mem_filter member)

namespace UsesOnly

theorem mono {more : Text → Prop} (uses : text.UsesOnly allowed)
    (weaker : ∀ word, allowed word → more word) : text.UsesOnly more :=
  fun word member start => weaker word (uses word member start)

theorem of_none (uses : text.UsesOnly fun _ => False) : text.UsesOnly allowed :=
  uses.mono fun _ => False.elim

theorem nil : UsesOnly allowed [] := by
  intro word member
  simp [runs] at member

theorem append_of_first (leftUses : left.UsesOnly allowed)
    (rightUses : right.UsesOnly allowed)
    (first : right.head?.all isSeparator = true) :
    (left ++ right).UsesOnly allowed := by
  rw [UsesOnly, runs_append_of_first first]
  exact List.forall_mem_append.mpr ⟨leftUses, rightUses⟩

theorem append_of_last (leftUses : left.UsesOnly allowed)
    (rightUses : right.UsesOnly allowed)
    (last : left.getLast?.all isSeparator = true) :
    (left ++ right).UsesOnly allowed := by
  rw [UsesOnly, runs_append_of_last last]
  exact List.forall_mem_append.mpr ⟨leftUses, rightUses⟩

/-- Texts without underscores have no words of helpers. -/
theorem of_no_underscore (absent : ('_' : CodePoint) ∉ text) :
    text.UsesOnly allowed := by
  intro word member start
  have inside : ('_' : CodePoint) ∈ Helper.mark := by decide
  exact absurd (mem_of_mem_runs member _ (start.subset inside)) absent

end UsesOnly

/-! ## Pieces between marks -/

namespace IsMark

theorem head?_all (isMark : mark.IsMark) :
    mark.head?.all isSeparator = true := by
  have first := isMark.first
  cases shape : mark.head? with
  | none => rfl
  | some point => rwa [shape] at first

theorem getLast?_all (isMark : mark.IsMark) :
    mark.getLast?.all isSeparator = true := by
  have last := isMark.last
  cases shape : mark.getLast? with
  | none => rfl
  | some point => rwa [shape] at last

theorem usesOnly (isMark : mark.IsMark) : mark.UsesOnly allowed :=
  isMark.plain.of_none

theorem before (isMark : mark.IsMark) (uses : text.UsesOnly allowed) :
    (mark ++ text).UsesOnly allowed :=
  isMark.usesOnly.append_of_last uses isMark.getLast?_all

theorem after (isMark : mark.IsMark) (uses : text.UsesOnly allowed) :
    (text ++ mark).UsesOnly allowed :=
  uses.append_of_first isMark.usesOnly isMark.head?_all

theorem between (isMark : mark.IsMark) (leftUses : left.UsesOnly allowed)
    (rightUses : right.UsesOnly allowed) :
    (left ++ mark ++ right).UsesOnly allowed := by
  rw [List.append_assoc]
  refine leftUses.append_of_first (isMark.before rightUses) ?_
  have first := isMark.first
  cases mark with
  | nil => cases first
  | cons point rest => exact first

end IsMark

theorem UsesOnly.parens (uses : text.UsesOnly allowed) :
    ("(" ++ text ++ ")").UsesOnly allowed := by
  have opening : IsMark "(" := by decide
  have closing : IsMark ")" := by decide
  exact closing.after (opening.before uses)

/-- A joined text mentions what its parts mention, if the mark between them is
no word. -/
theorem usesOnly_join (isMark : mark.IsMark) {parts : List Text}
    (each : ∀ part ∈ parts, part.UsesOnly allowed) :
    (join mark parts).UsesOnly allowed := by
  induction parts with
  | nil => exact .nil
  | cons part parts inductionHypothesis =>
      obtain ⟨here, later⟩ := List.forall_mem_cons.mp each
      cases parts with
      | nil =>
          rw [join, List.intercalate_singleton]
          exact here
      | cons next parts =>
          rw [join, List.intercalate_cons_cons]
          exact isMark.between here (inductionHypothesis later)

end Text

end ModelAudit
