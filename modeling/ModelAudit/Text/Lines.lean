import ModelAudit.Text.Blank

/-!
# Lines

Only a line feed starts a new line when positions are counted and when a text is
split into lines by `Text.lines`. Two further notions are needed:
`unifyNewlines` for reading text files, and `displayLines` for excerpts, where
every separator that a terminal may take for a line end counts.
-/

namespace ModelAudit

namespace Text

/-- The parts between line feeds. -/
def lines (text : Text) : List Text :=
  text.splitAll '\n'

/-- Writes each carriage return, alone or before a line feed, as one line
feed. -/
def unifyNewlines : Text → Text
  | [] => []
  | [point] => if point = '\r' then ['\n'] else [point]
  | point :: next :: rest =>
    if point = '\r' then
      if next = '\n' then '\n' :: unifyNewlines rest
      else '\n' :: unifyNewlines (next :: rest)
    else point :: unifyNewlines (next :: rest)

/-- Line feed, vertical tab, form feed, carriage return, the three information
separators above U+001B that end lines, next line, and the line and paragraph
separators. -/
def lineBreakRanges : List (Nat × Nat) :=
  [(0x0A, 0x0D), (0x1C, 0x1E), (0x85, 0x85), (0x2028, 0x2029)]

/-- The lines of a text that is about to be shown. A carriage return and a line
feed count as one break, and a final break opens no further line. -/
def displayLines (text : Text) : List Text :=
  let rec collect (line : Text) : Text → List Text
    | [] => if line.isEmpty then [] else [line.reverse]
    | point :: rest =>
      if point = '\r' then
        match rest with
        | [] => [line.reverse]
        | next :: others =>
          if next = '\n' then line.reverse :: collect [] others
          else line.reverse :: collect [] (next :: others)
      else if point.inRanges lineBreakRanges
        then line.reverse :: collect [] rest
      else collect (point :: line) rest
  collect [] text

end Text

end ModelAudit
