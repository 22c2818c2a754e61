import ModelAudit.Text.Basic

/-!
# Paths

A path as it is shown: without empty parts and without parts that stand for the
directory they are in. Exactly two slashes at the start are kept, since systems
may give them a meaning of their own.
-/

namespace ModelAudit

structure Path where
  /-- The slashes at the start. -/
  anchor : Text
  parts : List Text
deriving DecidableEq

namespace Path

def anchorOf (path : Text) : Text :=
  match (path.takeWhile fun point : CodePoint => point = '/').length with
  | 0 => []
  | 2 => "//"
  | _ => "/"

def ofText (path : Text) : Path :=
  ⟨anchorOf path,
    (Text.splitAll '/' path).filter fun part =>
      !part.isEmpty && part ≠ ("." : Text)⟩

def text (path : Path) : Text :=
  let written := path.anchor ++ Text.join "/" path.parts
  if written.isEmpty then "." else written

def child (directory : Path) (name : Text) : Path :=
  { directory with parts := directory.parts ++ [name] }

end Path

end ModelAudit
