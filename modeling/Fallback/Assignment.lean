import Fallback.Truth

/-!
Overwriting the attributes of things.

`Attempt.assign` is the usual way, which nodes and outcomes refuse; `Attempt.overwrite` gets around
that. Everything that the store holds takes attributes beyond those that it was made with, tokens
excepted; plain data takes none. A few attributes belong to the host, which says what they can be
overwritten with.

One of these is `__dict__`: to overwrite it is to replace all attributes at once, and what is not
given is gone. There is one thing that is refused here where the host would allow it: to take an
attribute away that the thing's own methods read, such as the place of a recoverable fault. The
fault that reports it is the one that such a method would end with.
-/
namespace Fallback

/-- The node with an attribute overwritten. -/
def Node.withAttribute (n : Node) (name : String) (v : Value) : Node :=
  match n.form.setField? name v with
  | some form => { n with form }
  | none =>
    if name = placeName then { n with place := v }
    else { n with extras := Environment.set n.extras name v }

/-- The outcome with an attribute overwritten. -/
def OutcomeCell.withAttribute (o : OutcomeCell) (name : String) (v : Value) : OutcomeCell :=
  match o.result, name with
  | .success _, "value" => { o with result := .success v }
  | .raised _, "exception" => { o with result := .raised v }
  | _, _ => { o with extras := Environment.set o.extras name v }

/-- The callable with an attribute overwritten. -/
def Callable.withAttribute (f : Callable) (name : String) (v : Value) : Callable :=
  match name with
  | "fn" => { f with routine := v }
  | "name" => { f with name := v }
  | "calls" => { f with calls := v }
  | _ => { f with extras := Environment.set f.extras name v }

/-- The rule with an attribute overwritten. -/
def Tree.withAttribute (t : Tree) (name : String) (v : Value) : Tree :=
  if name = labelName then { t with label := v }
  else if name = childrenName then { t with children := v }
  else if name = extentName then { t with extent := v }
  else { t with extras := Environment.set t.extras name v }

/-- The token with an attribute overwritten, if it has it. -/
def Token.withAttribute? (t : Token) (name : String) (v : Value) : Option Token :=
  if name = "type" then some { t with kind := v }
  else if name = "value" then some { t with value := v }
  else if Token.markNames.contains name then some { t with marks := Environment.set t.marks name v }
  else none

/-! ## All attributes at once -/

/-- The name of the attribute in which the host keeps the other attributes of a thing. -/
def dictionaryName : String :=
  "__dict__"

namespace Environment

/-- What stands under a name, or else the name, which is missing. -/
def demand (given : Attributes) (name : String) : Except String Value :=
  match get? given name with
  | some v => .ok v
  | none => .error name

/-- What stands under other names than some. -/
def without (given : Attributes) (names : List String) : Attributes :=
  given.filter fun a => !names.contains a.1

end Environment

/-- The node with nothing but the given attributes. The arguments of a call and the place have
defaults. -/
def Node.replace (n : Node) (given : Attributes) : Except String Node := do
  let names := n.form.kind.fieldNames
  let withDefault := if (Environment.get? given argsName).isSome then given
    else (argsName, .tuple [] Store.noStamp) :: given
  let values ← names.mapM (Environment.demand withDefault)
  return {
    form := (Form.ofValues? n.form.kind values).getD n.form
    place := (Environment.get? given placeName).getD .null
    extras := Environment.without given (placeName :: names) }

/-- The outcome with nothing but the given attributes. -/
def OutcomeCell.replace (o : OutcomeCell) (given : Attributes) : Except String OutcomeCell :=
  match o.result with
  | .success _ =>
    return ⟨.success (← Environment.demand given "value"), Environment.without given ["value"]⟩
  | .raised _ =>
    return ⟨.raised (← Environment.demand given "exception"),
      Environment.without given ["exception"]⟩

/-- The attributes of a fault that are none of its own dictionary. -/
def Fault.hostNames : List String :=
  [argsName, chainedName, "__context__", "__traceback__", "__suppress_context__"]

/-- The fault with nothing but the given attributes; it keeps its arguments and what it is chained
to. A fault that has a place reads it in its message, and a failed call reads its cause in
comparisons. -/
def Fault.replace (e : Fault) (given : Attributes) : Except String Fault := do
  let own := Environment.without given Fault.hostNames
  if e.kind = .failedCall then
    let _ ← Environment.demand own Fault.causeName
  if e.kind.hasPlace then
    return { e with
      place := ← Environment.demand own placeName
      extras := Environment.without own [placeName] }
  else return { e with extras := own }

/-- The callable with nothing but the given attributes. -/
def Callable.replace (f : Callable) (given : Attributes) : Except String Callable :=
  return { f with
    routine := ← Environment.demand given "fn"
    name := ← Environment.demand given "name"
    calls := ← Environment.demand given "calls"
    extras := Environment.without given ["fn", "name", "calls"] }

/-- The host object with nothing but the given attributes. Its truth test and its size read one
each. -/
def HostObject.replace (o : HostObject) (given : Attributes) : Except String HostObject := do
  if o.testsTruth then
    let _ ← Environment.demand given answerName
  if o.hasSize then
    let _ ← Environment.demand given sizeName
  return { o with attributes := given }

/-- The rule with nothing but the given attributes. -/
def Tree.replace (t : Tree) (given : Attributes) : Except String Tree :=
  return { t with
    label := ← Environment.demand given labelName
    children := ← Environment.demand given childrenName
    extent := ← Environment.demand given extentName
    extras := Environment.without given [labelName, childrenName, extentName] }

/-- The store in which a thing has nothing but the given attributes, or the name of one that it
cannot do without. -/
def Store.replace (s : Store) (given : Attributes) : Value → Except String Store
  | .node r => return s.setNode r (← (s.node r).replace given)
  | .outcome r => do
    let cell ← (s.outcome r).replace given
    return { s with outcomes := s.outcomes.setIfInBounds r.index cell }
  | .fault r => return s.setFault r (← (s.fault r).replace given)
  | .callable r => do
    let cell ← (s.callable r).replace given
    return { s with callables := s.callables.setIfInBounds r.index cell }
  | .object r => do
    let cell ← (s.object r).replace given
    return { s with objects := s.objects.setIfInBounds r.index cell }
  | .tree r => do
    let cell ← (s.tree r).replace given
    return { s with trees := s.trees.setIfInBounds r.index cell }
  | .extent r => return { s with extents := s.extents.setIfInBounds r.index given }
  | _ => return s

namespace Attempt

/-- Replaces all attributes of a value by what a dictionary has under texts. Tokens and plain data
have no such attributes. -/
def replace (target v : Value) : Attempt Unit := do
  let s ← get
  match target, v with
  | .position _, _ => misuse .readOnly
  | .node _, .dict entries _ | .fault _, .dict entries _ | .outcome _, .dict entries _
  | .callable _, .dict entries _ | .object _, .dict entries _ | .tree _, .dict entries _
  | .extent _, .dict entries _ =>
    let given := entries.filterMap fun entry => (s.text? entry.1).map fun t => (t, entry.2)
    match s.replace given target with
    | .ok t => set t
    | .error name => misuse (.missingAttribute (s.hostTypeName target) name)
  | .node _, _ | .fault _, _ | .outcome _, _ | .callable _, _ | .object _, _ | .tree _, _
  | .extent _, _ => misuse (.notDictionary (← hostTypeName v))
  | _, _ => misuse (.missingAttribute (s.hostTypeName target) dictionaryName)

/-- The fault with an attribute overwritten. Its arguments are always a tuple, and it is chained to
null or to a fault. The marks that the host sets when a fault is raised are checked and not kept. -/
def faultWith (e : Fault) (name : String) (v : Value) : Attempt Fault := do
  let isFaultOrNull := v.isNull || v.fault?.isSome
  if name = argsName then return { e with args := ← tupleOf v }
  else if name = chainedName then
    if isFaultOrNull then return { e with chained := v } else misuse .notChainable
  else if name = placeName && e.kind.hasPlace then return { e with place := v }
  else if name = "__context__" then
    if isFaultOrNull then return e else misuse .notPrecedable
  else if name = "__traceback__" then
    if v.isNull then return e else misuse .notTraceback
  else if name = "__suppress_context__" then
    match v with
    | .bool _ => return e
    | _ => misuse .notSwitch
  else return { e with extras := Environment.set e.extras name v }

/-- Overwrites an attribute of a value. The class of a thing cannot be overwritten with any value,
and its dictionary stands for all its attributes. -/
def overwrite (target : Value) (name : String) (v : Value) : Attempt Unit := do
  if name = "__class__" then misuse (.notClass (← hostTypeName v))
  if name = dictionaryName then return ← replace target v
  let s ← get
  match target with
  | .node r => set (s.setNode r ((s.node r).withAttribute name v))
  | .outcome r =>
    let cell := (s.outcome r).withAttribute name v
    set { s with outcomes := s.outcomes.setIfInBounds r.index cell }
  | .fault r =>
    let e ← faultWith (s.fault r) name v
    modify fun s => s.setFault r e
  | .callable r =>
    if name = "count" then misuse (.noSetter (s.typeName target) name)
    let cell := (s.callable r).withAttribute name v
    set { s with callables := s.callables.setIfInBounds r.index cell }
  | .object r =>
    let o := s.object r
    let cell := { o with attributes := Environment.set o.attributes name v }
    set { s with objects := s.objects.setIfInBounds r.index cell }
  | .token r =>
    match (s.token r).withAttribute? name v with
    | some cell => set { s with tokens := s.tokens.setIfInBounds r.index cell }
    | none => misuse (.missingAttribute (s.hostTypeName target) name)
  | .tree r =>
    if name = placeName then misuse (.noSetter (s.typeName target) name)
    let cell := (s.tree r).withAttribute name v
    set { s with trees := s.trees.setIfInBounds r.index cell }
  | .extent r =>
    let cell := Environment.set (s.extent r) name v
    set { s with extents := s.extents.setIfInBounds r.index cell }
  | .position r =>
    let cell := Environment.set (s.position r) name v
    set { s with positions := s.positions.setIfInBounds r.index cell }
  | _ => misuse (.missingAttribute (s.hostTypeName target) name)

/-- Assigns to an attribute of a value in the usual way, which nodes and outcomes refuse. -/
def assign (target : Value) (name : String) (v : Value) : Attempt Unit := do
  match target with
  | .node _ | .outcome _ => misuse (.frozenField (Text.quote name))
  | _ => overwrite target name v

end Attempt

end Fallback
