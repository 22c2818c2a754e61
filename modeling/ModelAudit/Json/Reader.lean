import ModelAudit.Json.Lexer

/-!
# Reading JSON

The units of a text drive a pushdown machine. Its state says what may come next;
the stack holds the arrays and objects that are still open, innermost first.
-/

namespace ModelAudit.Json

inductive Frame
  /-- The items so far, the last one first. -/
  | array (items : List Json)
  /-- The members so far and the name whose value is being read. -/
  | object (members : Table Json) (name : Text)

inductive State
  /-- A value must come. -/
  | value (opened : List Frame)
  /-- A first item or the end of an array. -/
  | firstItem (opened : List Frame)
  /-- A comma or the end of an array. -/
  | afterItem (opened : List Frame) (items : List Json)
  /-- A first name or the end of an object. -/
  | firstName (opened : List Frame)
  /-- A further name of an object. -/
  | nextName (opened : List Frame) (members : Table Json)
  /-- The colon after a name. -/
  | afterName (opened : List Frame) (members : Table Json) (name : Text)
  /-- A comma or the end of an object. -/
  | afterMember (opened : List Frame) (members : Table Json)
  /-- Nothing may come any more. -/
  | complete (value : Json)

/-- Puts a finished value into the innermost open array or object. -/
def deliver (value : Json) : List Frame → State
  | [] => .complete value
  | .array items :: opened => .afterItem opened (value :: items)
  | .object members name :: opened =>
    .afterMember opened (members.insert name value)

/-- Starts a value, which may be the first unit of an array or object. -/
def beginValue (opened : List Frame) : Unit → Option State
  | .scalar value => some (deliver value opened)
  | .openArray => some (.firstItem opened)
  | .openObject => some (.firstName opened)
  | _ => none

def step : State → Unit → Option State
  | .value opened, unit => beginValue opened unit
  | .firstItem opened, .closeArray => some (deliver (.array []) opened)
  | .firstItem opened, unit => beginValue (.array [] :: opened) unit
  | .afterItem opened items, .comma => some (.value (.array items :: opened))
  | .afterItem opened items, .closeArray =>
    some (deliver (.array items.reverse) opened)
  | .firstName opened, .closeObject => some (deliver (.object []) opened)
  | .firstName opened, .scalar (.string name) =>
    some (.afterName opened [] name)
  | .nextName opened members, .scalar (.string name) =>
    some (.afterName opened members name)
  | .afterName opened members name, .colon =>
    some (.value (.object members name :: opened))
  | .afterMember opened members, .comma => some (.nextName opened members)
  | .afterMember opened members, .closeObject =>
    some (deliver (.object members) opened)
  | _, _ => none

def read? (text : Text) : Option Json := do
  let units ← units? text
  match ← units.foldlM step (.value []) with
  | .complete value => return value
  | _ => none

end ModelAudit.Json
