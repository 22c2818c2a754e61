import ModelAudit.Evaluation.Scalar
import ModelAudit.Evaluation.SortSize
import ModelAudit.Evaluation.Truth

/-!
# Values

A value is unknown, a scalar, or an array. Arrays are built from constant arrays
and from functions by storing elements; the indices of arrays are scalars.
-/

namespace ModelAudit

inductive Value
  | unknown
  | scalar (value : Scalar)
  | constantArray (element : Value)
  | functionArray (elements : Scalar → Value)
  | store (array : Value) (index : Scalar) (element : Value)

namespace Value

def bool (value : Bool) : Value :=
  scalar (.bool value)

def integer (value : Int) : Value :=
  scalar (.integer value)

def rational (value : Rat) : Value :=
  scalar (.rational value)

def bits {width : Nat} (value : BitVec width) : Value :=
  scalar (.bits width value)

def string (contents : Text) : Value :=
  scalar (.string contents)

def ofTruth : Truth → Value
  | some value => bool value
  | none => unknown

def truth : Value → Truth
  | scalar (.bool value) => some value
  | _ => none

def integer? : Value → Option Int
  | scalar (.integer value) => some value
  | _ => none

def rational? : Value → Option Rat
  | scalar (.rational value) => some value
  | _ => none

def string? : Value → Option Text
  | scalar (.string contents) => some contents
  | _ => none

def select (apart : Apartness) : Value → Scalar → Value
  | unknown, _ | scalar _, _ => unknown
  | constantArray element, _ => element
  | functionArray elements, index => elements index
  | store array stored element, index =>
    match stored.equal? apart index with
    | some true => element
    | some false => select apart array index
    | none => unknown

/-- The element of an array at an index that may be unknown. -/
def selectAt (apart : Apartness) (array index : Value) : Value :=
  match index, array with
  | scalar index, array => array.select apart index
  | _, constantArray element => element
  | _, _ => unknown

/-- The array with another element at an index that may be unknown. -/
def storeAt (array index element : Value) : Value :=
  match index with
  | scalar index => store array index element
  | _ => unknown

def storedIndices : Value → List Scalar
  | store array index _ => index :: array.storedIndices
  | _ => []

/-- An array without the elements that have been stored in it. -/
def background : Value → Value
  | store array _ _ => array.background
  | array => array

/-- Whether two values of a sort are equal, as far as it is known. Arrays are
compared at all indices if there are few of them. Otherwise they are compared at
the indices that were stored to, and, if they are constant elsewhere, at one
more index. -/
def equal? (apart : Apartness) : SmtSort → Value → Value → Truth
  | .mk name params _, left, right =>
    let scalars : Truth :=
      match left, right with
      | scalar left, scalar right => left.equal? apart right
      | _, _ => none
    match params with
    | [index, element] =>
      if name = ("Array" : Text) then
        let agreesAt (place : Scalar) : Truth :=
          equal? apart element (left.select apart place)
            (right.select apart place)
        match Scalar.all? index with
        | some places => Truth.all (places.map agreesAt)
        | none =>
          let places := left.storedIndices ++ right.storedIndices
          let elsewhere : Truth :=
            match left.background, right.background with
            | constantArray leftElement, constantArray rightElement =>
              if places.length < index.sizeUpTo (places.length + 1) then
                equal? apart element leftElement rightElement
              else none
            | _, _ => none
          Truth.all (elsewhere :: places.map agreesAt)
      else scalars
    | _ => scalars

end Value

end ModelAudit
