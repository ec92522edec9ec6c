import Fallback.Attempt

/-!
Truth tests that the things themselves answer.

A host object may answer a truth test, or have a size that does; what it answers with need not be a
truth value, and what it gives as its size need not be a size. `Attempt.truth` is the truth of any
value, and `Attempt.settle` the position that a value marks in the source unless it calls itself
blank.
-/
namespace Fallback

/-- The name of the attribute that holds the answer of a host object to a truth test. -/
def answerName : String :=
  "truth"

/-- The name of the attribute that holds the size of a host object. -/
def sizeName : String :=
  "length"

namespace Attempt

/-- The least size that is out of range. -/
def sizeBound : Int :=
  Int.pow 2 63

/-- The size that a value stands for. -/
def sizeOf (size : Value) : Attempt Int := do
  match size, size.int? with
  | .fault e, _ => throw e
  | _, none =>
    fail .badType
      ("'" ++ (← hostTypeName size) ++ "' object cannot be interpreted as an integer")
  | _, some n =>
    if n < 0 then fail .badValue "__len__() should return >= 0"
    else if sizeBound ≤ n then fail .overflow "cannot fit 'int' into an index-sized integer"
    else return n

/-- The truth that an answer to a truth test stands for. -/
def answered (answer : Value) : Attempt Bool := do
  match answer with
  | .fault e => throw e
  | .bool b => return b
  | v => fail .badType ("__bool__ should return bool, returned " ++ (← hostTypeName v))

/-- The truth of a host object: what its `__bool__` answers, or else whether its `__len__` is not
zero. An object without tests is true. -/
def objectTruth (r : ObjectRef) : Attempt Bool := do
  let o := (← get).object r
  let held (name : String) : Value := (Environment.get? o.attributes name).getD .null
  if o.testsTruth then answered (held answerName)
  else if o.hasSize then return (← sizeOf (held sizeName)) != 0
  else return true

/-- The truth of a value. -/
def truth (v : Value) : Attempt Bool := do
  match v with
  | .object r => objectTruth r
  | v => return (← get).truth v

/-! ## Places -/

/-- The value marks nothing of its own in the source (`empty`), as the extent of a rule that matched
no text. -/
def isBlank (v : Value) : Attempt Bool := do
  match (← get).attribute? v blankName with
  | some b => truth b
  | none => return false

/-- The line and the column that a value tells, unless it is blank or tells no line. -/
def mark? (v : Value) : Attempt (Option Attributes) := do
  if ← isBlank v then return none else return (← get).mark? v

/-- Makes a position with the line and the column that a value tells (`source_pos`); null if there
is none to make. -/
def settle (v : Value) : Attempt Value := do
  match ← mark? v with
  | none => return .null
  | some attributes => return .position (← make fun s => s.addPosition attributes)

end Attempt

end Fallback
