import ModelAudit.Number.Quantity
import ModelAudit.Table
import ModelAudit.Text.Quoted

/-!
# JSON values

Numbers written without fraction and exponent are integers. The members of an
object keep their order, and a repeated name keeps its first place and its last
value.
-/

namespace ModelAudit

inductive Json
  | null
  | bool (value : Bool)
  | number (value : Quantity)
  | string (value : Text)
  | array (items : List Json)
  | object (members : List (Text × Json))

namespace Json

/-- A value counts as a yes unless it is null, false, zero or empty. -/
def isYes : Json → Bool
  | null => false
  | bool value => value
  | number (.integer value) => value ≠ 0
  | number (.real value) => !value.isZero
  | string value => !value.isEmpty
  | array items => !items.isEmpty
  | object members => !members.isEmpty

def isNull : Json → Bool
  | null => true
  | _ => false

mutual

/-- A value as it is shown inside another one: texts between quotes. -/
def shown : Json → Text
  | null => "None"
  | bool value => if value then "True" else "False"
  | number value => value.text
  | string value => value.quoted
  | array items => "[" ++ shownItems items ++ "]"
  | object members => "\x7b" ++ shownMembers members ++ "\x7d"

def shownItems : List Json → Text
  | [] => []
  | [item] => shown item
  | item :: items => shown item ++ ", " ++ shownItems items

def shownMembers : List (Text × Json) → Text
  | [] => []
  | [(name, value)] => name.quoted ++ ": " ++ shown value
  | (name, value) :: members =>
    name.quoted ++ ": " ++ shown value ++ ", " ++ shownMembers members

end

/-- A value written out where plain text is expected: a text stands for
itself. -/
def plain : Json → Text
  | string value => value
  | value => value.shown

end Json

end ModelAudit
