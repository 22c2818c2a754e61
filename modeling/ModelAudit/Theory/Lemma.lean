import ModelAudit.Text.Basic

/-!
# Lemmas and theories

The text of a theory with one lemma. At its end the theory prints a marker,
which Isabelle reaches only if the lemma was accepted.
-/

namespace ModelAudit

structure Lemma where
  name : Text
  /-- The fixed variables with the texts of their types. -/
  fixes : List (Text × Text)
  /-- Labels with groups of propositions. -/
  assumptions : List (Text × List Text)
  goal : Text
  /-- The facts handed to the proof method. -/
  facts : List Text
  method : Text
deriving DecidableEq

namespace Lemma

def proof (statement : Lemma) : Text :=
  if statement.facts.isEmpty then statement.method
  else if statement.method = ("auto" : Text) then
    "(auto simp add: " ++ Text.words statement.facts ++ ")"
  else "(simp add: " ++ Text.words statement.facts ++ ")"

def inQuotes (text : Text) : Text :=
  "\"" ++ text ++ "\""

/-- Entries of a list of clauses: the first comes after the keyword and all
others after `and`. -/
def withLead (keyword : Text) (entries : List Text) : List Text :=
  match entries with
  | [] => []
  | first :: others =>
    ("  " ++ keyword ++ " " ++ first) :: others.map fun entry =>
      "    and " ++ entry

/-- A group of propositions with its label; none for an empty group, which has
no text. -/
def assumptionText? (assumption : Text × List Text) : Option Text :=
  match assumption.snd with
  | [] => none
  | first :: others =>
    some (assumption.fst ++ ": " ++
      Text.join "\n      " ((first :: others).map inQuotes))

def text? (statement : Lemma) : Option Text := do
  let fixes :=
    statement.fixes.map fun (name, type) => name ++ " :: " ++ inQuotes type
  let assumptions ← statement.assumptions.mapM assumptionText?
  return Text.join "\n"
    (["lemma " ++ statement.name ++ ":"] ++ withLead "fixes" fixes ++
      withLead "assumes" assumptions ++
      ["  shows " ++ inQuotes statement.goal, "  apply " ++ statement.proof,
        "  done"])

end Lemma

structure Theory where
  name : Text
  imports : List Text
  /-- The definitions before the lemma. -/
  prelude : List Text
  statement : Lemma
deriving DecidableEq

namespace Theory

/-- What a theory prints once its lemma is accepted. -/
def provedMarker : Text :=
  "smtmv: goal proved"

/-- Names that need no quotes in a list of imports. -/
def isPlainImport : Text → Bool
  | [] => false
  | first :: rest =>
    first.isLetter && rest.all fun point =>
      point.isLetter || point.isDigit || point = '_'

def importText (name : Text) : Text :=
  if isPlainImport name then name else Lemma.inQuotes name

def text? (theory : Theory) : Option Text := do
  let statement ← theory.statement.text?
  let header :=
    "theory " ++ theory.name ++ "\n  imports " ++
      Text.words (theory.imports.map importText) ++ "\nbegin"
  let marker := "ML \\<open>writeln \"" ++ provedMarker ++ "\"\\<close>"
  return Text.join "\n\n"
    ([header] ++ theory.prelude ++ [statement, marker, "end"]) ++ "\n"

end Theory

end ModelAudit
