import ModelAudit.Text.Blank

/-!
# Patterns over lines

A pattern is a sequence of items that are matched one after the other, anywhere
in a text. Lines start and end at line feeds and at the ends of the text. White
space includes line feeds, so that one match may run over several lines.
-/

namespace ModelAudit

inductive PatternItem
  /-- The start of a line; nothing is taken. -/
  | lineStart
  /-- The end of a line; nothing is taken. -/
  | lineEnd
  /-- White space, as much as the later items allow. -/
  | blanks
  | word (word : Text)
deriving DecidableEq

abbrev Pattern := List PatternItem

/-- What is matched at a place: the code point before it, if there is one, and
the text after it. -/
abbrev Matcher := Option CodePoint → Text → Bool

/-- Tries the matcher after white space of every length. -/
def Matcher.afterBlanks (next : Matcher) : Matcher
  | previous, [] => next previous []
  | previous, point :: rest =>
    next previous
      (point :: rest) || (point.isBlank && afterBlanks next (some point) rest)

/-- Matches the item and then what comes next. -/
def PatternItem.before (item : PatternItem) (next : Matcher) : Matcher :=
  fun previous text =>
  match item with
  | lineStart =>
    previous.all (fun point : CodePoint => point = '\n') && next previous text
  | lineEnd =>
    text.head?.all (fun point : CodePoint => point = '\n') && next previous text
  | blanks => next.afterBlanks previous text
  | word written =>
    written.isPrefixOf text && next (written.getLast?.or previous)
      (text.drop written.length)

namespace Pattern

/-- Whether the pattern matches at a place. -/
def startsAt : Pattern → Matcher
  | [] => fun _ _ => true
  | item :: items => item.before (startsAt items)

/-- Whether the pattern matches at a place or at a later one. -/
def occursFrom (pattern : Pattern) : Matcher
  | previous, [] => pattern.startsAt previous []
  | previous, point :: rest =>
    pattern.startsAt previous (point :: rest) || occursFrom pattern
      (some point) rest

def occursIn (pattern : Pattern) (text : Text) : Bool :=
  pattern.occursFrom none text

/-- The message with nothing but white space on the lines around it. -/
def alone (message : Text) : Pattern :=
  [.lineStart, .blanks, .word message, .blanks, .lineEnd]

end Pattern

end ModelAudit
