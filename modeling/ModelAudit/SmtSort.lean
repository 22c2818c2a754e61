import ModelAudit.Text.Basic

/-!
# Sorts of SMT-LIB

A sort is a name applied to parameters and indices. Two sorts are equal exactly
when names, parameters and indices agree.
-/

namespace ModelAudit

/-- For instance `Int`, the bit-vectors of an indexed width, or `Array` applied
to an index and an element sort. -/
inductive SmtSort
  | mk (name : Text) (params : List SmtSort) (indices : List Int)

namespace SmtSort

def name : SmtSort → Text
  | mk name _ _ => name

def params : SmtSort → List SmtSort
  | mk _ params _ => params

def indices : SmtSort → List Int
  | mk _ _ indices => indices

mutual

def decideEq : (left right : SmtSort) → Decidable (left = right)
  | mk leftName leftParams leftIndices, mk rightName rightParams rightIndices =>
    match (inferInstance : Decidable (leftName = rightName)),
        decideEqAll leftParams rightParams,
        (inferInstance : Decidable (leftIndices = rightIndices)) with
    | isTrue names, isTrue params, isTrue indices =>
      isTrue (by rw [names, params, indices])
    | isFalse names, _, _ =>
      isFalse fun equal => by cases equal; exact names rfl
    | _, isFalse params, _ =>
      isFalse fun equal => by cases equal; exact params rfl
    | _, _, isFalse indices =>
      isFalse fun equal => by cases equal; exact indices rfl

def decideEqAll : (left right : List SmtSort) → Decidable (left = right)
  | [], [] => isTrue rfl
  | [], _ :: _ => isFalse fun equal => by cases equal
  | _ :: _, [] => isFalse fun equal => by cases equal
  | left :: lefts, right :: rights =>
    match decideEq left right, decideEqAll lefts rights with
    | isTrue head, isTrue tail => isTrue (by rw [head, tail])
    | isFalse head, _ => isFalse fun equal => by cases equal; exact head rfl
    | _, isFalse tail => isFalse fun equal => by cases equal; exact tail rfl

end

instance : DecidableEq SmtSort := decideEq

mutual

def text : SmtSort → Text
  | mk name params indices =>
    let head :=
      if indices.isEmpty then name
      else "(_ " ++ name ++ " " ++ Text.words (indices.map Text.integer) ++ ")"
    if params.isEmpty then head else "(" ++ head ++ textOfAll params ++ ")"

/-- The texts of sorts, each after a space. -/
def textOfAll : List SmtSort → Text
  | [] => []
  | sort :: sorts => " " ++ text sort ++ textOfAll sorts

end

/-- A sort without parameters and indices. -/
def simple (name : Text) : SmtSort :=
  mk name [] []

def bool : SmtSort := simple "Bool"

def int : SmtSort := simple "Int"

def real : SmtSort := simple "Real"

def string : SmtSort := simple "String"

def bitVec (width : Int) : SmtSort :=
  mk "BitVec" [] [width]

def array (index element : SmtSort) : SmtSort :=
  mk "Array" [index, element] []

def isSimple (sort : SmtSort) : Bool :=
  sort.params.isEmpty && sort.indices.isEmpty

def width? : SmtSort → Option Int
  | mk name _ [width] => if name = ("BitVec" : Text) then some width else none
  | _ => none

def arrayParts? : SmtSort → Option (SmtSort × SmtSort)
  | mk name [index, element] _ =>
    if name = ("Array" : Text) then some (index, element) else none
  | _ => none

/-- The built-in sorts that take neither parameters nor indices. -/
def basicNames : List Text :=
  ["Bool", "Int", "Real", "String"]

def builtinNames : List Text :=
  basicNames ++ (["BitVec", "Array"] : List Text)

/-- The built-in sort of this shape, if there is one. The width of bit-vectors
is positive. -/
def builtin? (name : Text) (params : List SmtSort) (indices : List Int) :
    Option SmtSort :=
  match params, indices with
  | [], [] => if basicNames.contains name then some (simple name) else none
  | [], [width] =>
    if name = ("BitVec" : Text) ∧ 0 < width then some (bitVec width) else none
  | [index, element], [] =>
    if name = ("Array" : Text) then some (array index element) else none
  | _, _ => none

end SmtSort

end ModelAudit
