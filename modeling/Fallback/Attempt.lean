import Fallback.Equality
import Fallback.Work

/-!
Attempts: work on the store that ends with a result or with a fault.

The store is kept in both cases, so what an attempt made before it failed stays made. The basic
attempts make new things: plain data with a stamp of its own, nodes, outcomes and faults.
-/
namespace Fallback

/-- Work on the store that may end with a fault. -/
abbrev Attempt : Type → Type := Work Store

namespace Attempt

variable {α : Type}

/-- Adds a cell with one of the store's functions. -/
def make (add : Store → α × Store) : Attempt α :=
  modifyGet add

/-! ## Plain data -/

/-- A new text. -/
def text (t : String) : Attempt Value := do
  return .str t (← make Store.addStamp)

/-- A new integer. -/
def integer (n : Int) : Attempt Value := do
  return .int n (← make Store.addStamp)

/-- A new list. -/
def list (items : List Value) : Attempt Value := do
  return .list items (← make Store.addStamp)

/-- A new tuple. -/
def tuple (items : List Value) : Attempt Value := do
  return .tuple items (← make Store.addStamp)

/-- A curio: a thing of which no more is known than its type. -/
def curio (typeName : String) : Attempt Value := do
  return .curio typeName (← make Store.addStamp)

/-! ## Faults -/

/-- Makes a fault. -/
def newFault (kind : FaultKind) (args : Value) (place : Value) (extras : Attributes) :
    Attempt FaultRef :=
  make fun s => s.addFault ⟨kind, args, .null, place, extras⟩

/-- Makes a fault with a message at a place. -/
def newFaultAt (kind : FaultKind) (place : Value) (message : String) : Attempt FaultRef := do
  newFault kind (← tuple [← text message]) place []

/-- Makes a fault with a message. -/
def newMessage (kind : FaultKind) (message : String) : Attempt FaultRef :=
  newFaultAt kind .null message

/-- Ends with a new fault. -/
def fail (kind : FaultKind) (message : String) : Attempt α := do
  throw (← newMessage kind message)

/-- Ends with the report of a broken tree (`MalformedTree`). -/
def malformed (place : Value) (message : String) : Attempt α := do
  throw (← newFaultAt .malformed place message)

/-- Ends with the report of a misuse. -/
def misuse (m : Misuse) : Attempt α :=
  fail m.kind m.message

/-- An answer of the present store; a misuse ends the attempt. -/
def ask (answer : Store → Except Misuse α) : Attempt α := do
  match answer (← get) with
  | .ok a => return a
  | .error m => misuse m

/-- The interpreter that the store is in. -/
def interpreter : Attempt Interpreter := do
  return (← get).interpreter

/-- The name of a value's type. -/
def typeName (v : Value) : Attempt String := do
  return (← get).typeName v

/-- The name of a value's type as the host gives it. -/
def hostTypeName (v : Value) : Attempt String := do
  return (← get).hostTypeName v

/-- Ends with a value that is raised; only a fault can be. -/
def raise (v : Value) : Attempt α := do
  match v with
  | .fault e => throw e
  | _ => misuse .notRaisable

/-- A copy of a fault (`CoalesceError.clone`). -/
def copyFault (e : FaultRef) : Attempt FaultRef :=
  make fun s => s.addFault (s.fault e)

/-- A name that is not bound (`EvalNameError`). -/
def unbound (name : Value) : Attempt FaultRef := do
  let shown ← ask fun s => s.plainText name
  let args ← tuple [← text s!"Name '{shown}' not found"]
  newFault .unboundName args .null [(Fault.subjectName, name)]

/-- A call that failed because of another fault (`CallError` with a message of its own). A cause
that is no fault is refused once the message is made. -/
def newCallFailure (cause : Value) (message : Value) : Attempt FaultRef := do
  let args ← tuple [message]
  if cause.isNull || cause.fault?.isSome then
    let e ← newFault .failedCall args .null [(Fault.causeName, cause)]
    modify fun s => s.setFault e { s.fault e with chained := cause }
    return e
  else misuse .notChainable

/-- A call that failed because of another fault (`CallError`). The message names that fault and its
own message. -/
def callFailure (cause : Value) : Attempt FaultRef := do
  newCallFailure cause (← text (← ask fun s => s.namedText cause))

/-! ## Nodes and outcomes -/

/-- Makes a node. -/
def newNode (form : Form) (place : Value) : Attempt NodeRef :=
  make fun s => s.addNode ⟨form, place, []⟩

/-- Makes an outcome. -/
def newOutcome (result : Result) : Attempt Outcome := do
  return ⟨← make fun s => s.addOutcome result, result⟩

/-! ## Items and dictionaries -/

/-- The items of a value that can be walked through. -/
def items (v : Value) : Attempt (List Value) :=
  ask fun s => s.items v

/-- The tuple of the items of a value; a tuple is its own. -/
def tupleOf (v : Value) : Attempt Value := do
  match v with
  | .tuple _ _ => return v
  | v => tuple (← items v)

/-- Adds an entry to a dictionary: a key that is there already keeps its place and gets the new
value. -/
def putEntry (key value : Value) : List (Value × Value) → Attempt (List (Value × Value))
  | [] => return [(key, value)]
  | entry :: more => do
    let same ← ask fun s => s.areSameKey entry.1 key
    if same then return (entry.1, value) :: more
    else return entry :: (← putEntry key value more)

/-- Adds an entry to a dictionary, unless its key cannot be one. -/
def insertEntry (entries : List (Value × Value)) (key value : Value) :
    Attempt (List (Value × Value)) := do
  ask fun s => s.checkKey key
  putEntry key value entries

/-- A new dictionary. -/
def dictionary (entries : List (Value × Value)) : Attempt Value := do
  return .dict entries (← make Store.addStamp)

end Attempt

end Fallback
