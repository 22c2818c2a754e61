import ModelAudit.SExpr.Lexer

/-!
# Reading s-expressions

Tokens are grouped into lists with a stack of the lists that are still open,
innermost first. The items collected so far stand in reverse order.
-/

namespace ModelAudit

namespace Reader

/-- A list whose closing parenthesis has not come yet. -/
structure OpenList where
  position : Position
  items : List SExpr

structure State where
  /-- The open lists, innermost first. -/
  opened : List OpenList
  /-- The finished expressions outside all lists. -/
  top : List SExpr

/-- Adds a finished expression to the innermost open list. -/
def State.add (state : State) (expression : SExpr) : State :=
  match state.opened with
  | [] => ⟨[], expression :: state.top⟩
  | inner :: outer =>
    ⟨⟨inner.position, expression :: inner.items⟩ :: outer, state.top⟩

def State.step (state : State) (token : Token) : Except ReadFault State :=
  match token.lexeme with
  | .leftParenthesis => .ok ⟨⟨token.position, []⟩ :: state.opened, state.top⟩
  | .rightParenthesis =>
    match state.opened with
    | [] => .error ⟨.unbalanced, token.position.place⟩
    | inner :: outer =>
      .ok (State.add ⟨outer, state.top⟩
        (.list inner.items.reverse inner.position))
  | .atom atom => .ok (state.add (.atom atom token.position))

def group (tokens : List Token) : Except ReadFault (List SExpr) := do
  let final ← tokens.foldlM State.step ⟨[], []⟩
  match final.opened with
  | [] => return final.top.reverse
  | inner :: _ => .error ⟨.unclosed, inner.position.place⟩

end Reader

/-- All s-expressions of a text. Lexical faults anywhere come before faults of
nesting. -/
def readExpressions (text : Text) : Except ReadFault (List SExpr) := do
  Reader.group (← tokenize text)

end ModelAudit
