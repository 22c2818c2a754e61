import ModelAudit.Text.Basic

/-!
# White space

The 29 code points that Unicode counts as white space, control characters
included. The zero-width space and the byte order mark are not among them.
-/

namespace ModelAudit

def blankRanges : List (Nat × Nat) :=
  [(0x09, 0x0D), (0x1C, 0x20), (0x85, 0x85), (0xA0, 0xA0), (0x1680, 0x1680),
    (0x2000, 0x200A), (0x2028, 0x2029), (0x202F, 0x202F), (0x205F, 0x205F),
    (0x3000, 0x3000)]

def CodePoint.isBlank (point : CodePoint) : Bool :=
  point.inRanges blankRanges

namespace Text

def stripLeft (text : Text) : Text :=
  text.dropWhile CodePoint.isBlank

def stripRight (text : Text) : Text :=
  (text.reverse.dropWhile CodePoint.isBlank).reverse

def strip (text : Text) : Text :=
  (text.stripLeft).stripRight

end Text

end ModelAudit
