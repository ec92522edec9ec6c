import Fallback.Script.Path

/-!
Building the values that terms describe.

Parts are built in the order in which they are written, and a thing is made when its parts are
there. What terms describe need not fit: a node may lack a field or have one too many, and a fault
may have a cause that is none.
-/
namespace Fallback.Script

/-! ## Fields by name -/

/-- Names in quotes, with commas and a last "and" between them. -/
def enumerated (names : List String) : String :=
  match names.map fun name => "'" ++ name ++ "'" with
  | [a] => a
  | [a, b] => a ++ " and " ++ b
  | quoted => joined quoted.dropLast ++ ", and " ++ (quoted.getLast?.getD "")

namespace Making

open Attempt

variable {α : Type}

/-- Ends because a thing has no field of a name. -/
def unexpectedField (what name : String) : Attempt α :=
  fail .badType (what ++ ".__init__() got an unexpected keyword argument '" ++ name ++ "'")

/-- Ends because fields of a thing are missing. -/
def missingFields (what : String) (names : List String) : Attempt α :=
  fail .badType
    (what ++ ".__init__() missing " ++ toString names.length ++ " required positional argument" ++
      (if names.length = 1 then "" else "s") ++ ": " ++ enumerated names)

/-- Makes a node from named fields. A call without arguments need not say so. -/
def node (kind : NodeKind) (fields : Attributes) (place : Value) : Attempt Value := do
  let given (name : String) : Bool := (Environment.get? fields name).isSome
  match fields.find? fun f => !kind.fieldNames.contains f.1 with
  | some f => unexpectedField kind.name f.1
  | none =>
    let noArgs ← tuple []
    let fields :=
      if kind = .call && !given argsName then fields ++ [(argsName, noArgs)] else fields
    let values := kind.fieldNames.filterMap (Environment.get? fields)
    match Form.ofValues? kind values with
    | some form => return .node (← Attempt.node form place)
    | none =>
      missingFields kind.name
        (kind.fieldNames.filter fun name => (Environment.get? fields name).isNone)

/-- Makes a node of a kind from an operand and the chain of those after it. Only a call and the
operators have two fields for them. -/
def link (kind : NodeKind) (place operand rest : Value) : Attempt NodeRef :=
  match kind with
  | .fallback op => fallback op operand rest place
  | .call => call operand rest place
  | .ternary => missingFields kind.name ["else_branch"]
  | _ =>
    fail .badType
      (kind.name ++ ".__init__() got multiple values for argument '" ++ placeName ++ "'")

/-- Makes options from named values. -/
def optionsOf (given : Attributes) : Attempt Options := do
  match given.find? fun g => !(["max_depth", "debug_trace"].contains g.1) with
  | some g => unexpectedField "EvalOptions" g.1
  | none => options (Environment.get? given "max_depth") (Environment.get? given "debug_trace")

/-- Makes a fault of a kind as it is before a place, a chain or extras are given to it. -/
def plainFault (kind : FaultKind) (args : List Value) (message subject cause code : Option Value) :
    Attempt FaultRef := do
  match kind with
  | .unboundName => unbound (subject.getD .null)
  | .failedCall =>
    let cause := cause.getD .null
    match message.filter fun m => !m.isNull with
    | some m => newCallFailure cause m
    | none => callFailure cause
  | _ =>
    let args := if kind.isLocatable || kind = .malformed then message.toList else args
    let extras := if kind = .custom then (code.map fun v => ("code", v)).toList else []
    newFault kind (← tuple args) .null extras

/-- Makes a fault. -/
def fault (kind : FaultKind) (args : List Value)
    (message subject cause code place chained : Option Value) (extras : Attributes) :
    Attempt Value := do
  let e ← Value.fault <$> plainFault kind args message subject cause code
  if kind.isLocatable || kind = .malformed then
    match place with
    | some v => overwrite e placeName v
    | none => pure ()
  match chained with
  | some v => overwrite e chainedName v
  | none => pure ()
  extras.forM fun a => overwrite e a.1 a.2
  return e

end Making

/-! ## Building terms -/

namespace Build

mutual

/-- Builds the value of a term. -/
def term : Term → Build Value
  | .null => return .null
  | .bool b => return .bool b
  | .int n => ofAttempt (Attempt.integer n)
  | .float x => do return .float x (← ofAttempt (Attempt.make Store.addStamp))
  | .nan => do return .nan (← ofAttempt (Attempt.make Store.addStamp))
  | .str s => ofAttempt (Attempt.text s)
  | .list items => do
    let built ← terms items
    ofAttempt (Attempt.list built)
  | .tuple items => do
    let built ← terms items
    ofAttempt (Attempt.tuple built)
  | .dict es => do
    let built ← entries [] es
    ofAttempt (Attempt.dictionary built)
  | .use name path => stored name path
  | .absent what => missing what
  | .callable name b => do
    let name ← term name
    let number ← body b
    return .callable (← ofAttempt (Attempt.make fun s => s.addCallable name ⟨number⟩))
  | .object label truth size => do
    let label ← term label
    let truth ← optional truth
    let size ← optional size
    let named (name : String) (v : Option Value) : Attributes := (v.map fun w => (name, w)).toList
    let attributes := ("label", label) :: (named "truth" truth ++ named "length" size)
    return .object (← ofAttempt (Attempt.make fun s =>
      s.addObject ⟨truth.isSome, size.isSome, attributes⟩))
  | .fault kind args message subject cause code place chained extras => do
    let args ← terms args
    let message ← optional message
    let subject ← optional subject
    let code ← optional code
    let cause ← optional cause
    let place ← optional place
    let chained ← optional chained
    let extras ← bindings extras
    ofAttempt (Making.fault kind args message subject cause code place chained extras)
  | .success v => do
    let v ← term v
    return (← ofAttempt (Attempt.newOutcome (.success v))).toValue
  | .raised e => do
    let e ← term e
    return (← ofAttempt (Attempt.newOutcome (.raised e))).toValue
  | .node kind fields place => do
    let fields ← bindings fields
    let place ← optional place
    ofAttempt (Making.node kind fields (place.getD .null))
  | .lowered tree => do
    let tree ← term tree
    ofAttempt (Attempt.lower tree)
  | .chain op operands place => do
    let operands ← terms operands
    let place ← optional place
    ofAttempt (Attempt.chain op operands (place.getD .null))
  | .fold kind operands place => do
    let operands ← terms operands
    let place := (← optional place).getD .null
    ofAttempt (Attempt.foldRight kind (Making.link kind place) operands place)
  | .token kind value marks => do
    let kind ← term kind
    let value ← term value
    let marks ← bindings marks
    let text ← ofAttempt (Attempt.ask fun s => s.plainText value)
    return .token (← ofAttempt (Attempt.make fun s => s.addToken ⟨text, kind, value, marks⟩))
  | .tree label children extent => do
    let label ← term label
    let children ← terms children
    let extent ← bindings extent
    let children ← ofAttempt (Attempt.list children)
    let extent ← ofAttempt (Attempt.make fun s => s.addExtent extent)
    return .tree (← ofAttempt (Attempt.make fun s =>
      s.addTree ⟨label, children, .extent extent, []⟩))
  | .extent marks => do
    let marks ← bindings marks
    return .extent (← ofAttempt (Attempt.make fun s => s.addExtent marks))
  | .position marks => do
    let marks ← bindings marks
    return .position (← ofAttempt (Attempt.make fun s => s.addPosition marks))

/-- Builds values from left to right. -/
def terms : List Term → Build (List Value)
  | [] => return []
  | t :: more => do
    let v ← term t
    return v :: (← terms more)

/-- Builds a value that may be absent. -/
def optional : Option Term → Build (Option Value)
  | none => return none
  | some t => return some (← term t)

/-- Adds built entries to a dictionary, each as soon as its key and its value are built. -/
def entries (dict : List (Value × Value)) : List (Term × Term) → Build (List (Value × Value))
  | [] => return dict
  | (k, t) :: more => do
    let key ← term k
    let v ← term t
    let dict ← ofAttempt (Attempt.insertEntry dict key v)
    entries dict more

/-- Builds values with names. -/
def bindings : List (String × Term) → Build Environment
  | [] => return []
  | (name, t) :: more => do
    let v ← term t
    return (name, v) :: (← bindings more)

/-- Keeps a body. -/
def body : Body → Build Nat
  | .constant v => do newBody (.constant (← term v))
  | .raises v => do newBody (.raises (← term v))
  | .arguments => newBody .arguments
  | .argument index => do newBody (.argument (← term index))
  | .count => newBody .count
  | .readInteger => newBody .readInteger
  | .add => newBody .add
  | .sequence items => do newBody (.sequence (← bodies items))
  | .bind name v => do newBody (.bind name (← term v))
  | .unbind name => newBody (.unbind name)
  | .evaluates root environment options traced unwrapped =>
    newBody (.evaluates root environment options traced unwrapped)

/-- Keeps bodies from left to right. -/
def bodies : List Body → Build (List Nat)
  | [] => return []
  | b :: more => do
    let number ← body b
    return number :: (← bodies more)

end

/-- Builds options. -/
def options (given : NamedTerms) : Build Options := do
  let given ← bindings given
  ofAttempt (Making.optionsOf given)

end Build

end Fallback.Script
