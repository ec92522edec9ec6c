import Fallback.Script.Integer

/-!
Paths: from a stored thing to a part of it.

A step of a path that is written in digits is an index, any other step the name of an attribute.
-/
namespace Fallback.Script

/-- The first index that is too large for any value. -/
def indexBound : Int :=
  Int.pow 2 63

namespace Part

open Attempt

/-- The item of a sequence at an index that counts from zero. -/
def itemAt (what : String) (items : List Value) (index : Int) : Attempt Value := do
  if indexBound ≤ index then misuse .oversizedIndex
  else match items[index.toNat]? with
    | some v => return v
    | none => misuse (.outOfRange what)

/-- The value of a key in a dictionary. -/
def valueOf (key : Value) : List (Value × Value) → Attempt Value
  | [] => do
    throw (← newFault .missingKey (← tuple [key]) .null [])
  | entry :: more => do
    if ← ask fun s => s.areSameKey entry.1 key then return entry.2 else valueOf key more

/-- The item of a value at an index. -/
def item (v : Value) (index : Int) : Attempt Value := do
  let s ← get
  match v with
  | .tuple items _ => itemAt "tuple" items index
  | .dict entries _ => valueOf (← integer index) entries
  | v =>
    match s.listItems? v, s.text? v with
    | some items, _ => itemAt "list" items index
    | none, some t =>
      itemAt "string" (← t.toList.mapM fun c => text (String.singleton c)) index
    | none, none => misuse (.notSubscriptable (s.hostTypeName v))

/-- The name under which a callable tells how often it was invoked. -/
def countName : String :=
  "count"

/-- The type of what a value can do under a name, or of its own type. -/
def abilityType? (s : Store) (v : Value) (name : String) : Option String :=
  if name = "__class__" then some "type"
  else match v with
    | .outcome _ => if name = "unwrap" then some "method" else none
    | .fault e => if name = "clone" && (s.fault e).kind.isLocatable then some "method" else none
    | _ => none

/-- The extent of a rule; a rule that has none gets one that is blank. -/
def extentOf (r : TreeRef) : Attempt Value := do
  let t := (← get).tree r
  if t.extent.isNull then
    let extent ← Value.extent <$> make fun s => s.addExtent [(blankName, .bool true)]
    overwrite (.tree r) extentName extent
    return extent
  else return t.extent

/-- An attribute of a value. The number of a callable's invocations is the length of the list of
their arguments. -/
def named (v : Value) (name : String) : Attempt Value := do
  let s ← get
  if let .tree r := v then
    if name = placeName then return ← extentOf r
  match v, s.attribute? v name, abilityType? s v name with
  | _, some w, _ => return w
  | _, none, some typeName => curio typeName
  | .callable f, none, none =>
    let calls := (s.callable f).calls
    if name ≠ countName then misuse (.missingAttribute (s.hostTypeName v) name)
    else match s.length? calls with
      | some n => integer n
      | none => misuse (.noLength (s.hostTypeName calls))
  | _, none, none => misuse (.missingAttribute (s.hostTypeName v) name)

/-- A step of a path is an index: it is written in digits, or in characters that are digits without
being decimal ones. The latter spell no index. -/
def isIndex (step : String) : Bool :=
  !step.isEmpty && step.toList.all fun c => Text.isDigit c || Text.isSpecialDigit c

/-- A part of a value. -/
def partOf (v : Value) (step : String) : Attempt Value := do
  if isIndex step then item v (← readInteger (.str step Store.noStamp) step) else named v step

end Part

/-- Ends because there is nothing under a name. -/
def Build.missing {α : Type} (name : String) : Build α :=
  Build.ofAttempt do
    let args ← Attempt.tuple [← Attempt.text name]
    throw (← Attempt.newFault .missingKey args .null [])

/-- The thing stored under a name, or a part of it. -/
def Build.stored (name : String) (path : List String) : Build Value := do
  match (← Build.stage).names.get? name with
  | some v => Build.ofAttempt (path.foldlM Part.partOf v)
  | none => Build.missing name

end Fallback.Script
