import Fallback.Store

/-!
Things: what can be asked of a value without changing anything.

A place is any value that stands under `meta`, and a mark is what it tells of the source: a line and
a column.

`Store.typeName` names the type of a value, and `Store.attribute?` reads an attribute of it. On
these rest the questions that do not care what a value is: `Store.line?` is the line in the source
that it tells, `Store.text?` the text that it is, `Store.items?` what can be walked through in it
and `Store.truth` its truth as far as it decides it by itself.
-/
namespace Fallback

/-! ## Names of types -/

/-- The name of a host object's type tells which truth tests it has. -/
def HostObject.typeName (o : HostObject) : String :=
  match o.testsTruth, o.hasSize with
  | false, false => "HostObject"
  | true, false => "HostBool"
  | false, true => "HostLen"
  | true, true => "HostBoth"

/-- The name of the type of a result. -/
def Result.typeName : Result → String
  | .success _ => "Success"
  | .raised _ => "Raised"

namespace Store

/-- The name of the type of a value. -/
def typeName (s : Store) : Value → String
  | .null => "NoneType"
  | .bool _ => "bool"
  | .int _ _ => "int"
  | .float _ _ => "float"
  | .nan _ => "float"
  | .str _ _ => "str"
  | .list _ _ => "list"
  | .tuple _ _ => "tuple"
  | .dict _ _ => "dict"
  | .node n => (s.form n).kind.name
  | .fault e => (s.fault e).kind.name
  | .outcome o => (s.outcome o).result.typeName
  | .callable _ => "CountingCallable"
  | .routine _ => "function"
  | .object o => (s.object o).typeName
  | .token _ => "Token"
  | .tree _ => "Tree"
  | .extent _ => "Meta"
  | .position _ => "SimpleNamespace"
  | .curio name _ => name

/-- The name of the type of a value as the host itself gives it in its messages. -/
def hostTypeName (s : Store) : Value → String
  | .position _ => "types.SimpleNamespace"
  | v => s.typeName v

end Store

/-! ## Attributes -/

/-- The name of the attribute that holds the place of a thing in the source. -/
def placeName : String :=
  "meta"

/-- The name of the attribute that holds a line. -/
def lineName : String :=
  "line"

/-- The name of the attribute that holds a column. -/
def columnName : String :=
  "column"

/-- The name of the attribute that marks an extent as blank. -/
def blankName : String :=
  "empty"

/-- The name of the attribute that holds the arguments of a fault or of a call. -/
def argsName : String :=
  "args"

/-- The name of the attribute that holds the fault that a fault is chained to. -/
def chainedName : String :=
  "__cause__"

/-- The name of the attribute that holds a way of its own to copy a fault. -/
def copyName : String :=
  "clone"

/-- The name of the attribute that holds the label of a rule. -/
def labelName : String :=
  "data"

/-- The name of the attribute that holds the children of a rule. -/
def childrenName : String :=
  "children"

/-- The name under which a rule keeps its extent. -/
def extentName : String :=
  "_meta"

/-- The attributes of a node. -/
def Node.attributes (n : Node) : Attributes :=
  n.form.fields ++ (placeName, n.place) :: n.extras

/-- The attributes of a fault. -/
def Fault.attributes (e : Fault) : Attributes :=
  (argsName, e.args) :: (chainedName, e.chained) ::
    if e.kind.hasPlace then (placeName, e.place) :: e.extras else e.extras

/-- The attributes of an outcome. -/
def OutcomeCell.attributes (o : OutcomeCell) : Attributes :=
  match o.result with
  | .success v => ("value", v) :: o.extras
  | .raised e => ("exception", e) :: o.extras

/-- The attributes of a callable. -/
def Callable.attributes (f : Callable) : Attributes :=
  ("fn", f.routine) :: ("name", f.name) :: ("calls", f.calls) :: f.extras

/-- The marks that a token can have. -/
def Token.markNames : List String :=
  ["start_pos", lineName, columnName, "end_line", "end_column", "end_pos"]

/-- The attributes of a token. A mark that was not set is null. -/
def Token.attributes (t : Token) : Attributes :=
  ("type", t.kind) :: ("value", t.value) ::
    Token.markNames.map fun name => (name, (Environment.get? t.marks name).getD .null)

/-- The attributes of a rule. -/
def Tree.attributes (t : Tree) : Attributes :=
  (labelName, t.label) :: (childrenName, t.children) :: (placeName, t.extent) ::
    (extentName, t.extent) :: t.extras

namespace Store

/-- The attributes of a value. -/
def attributes (s : Store) : Value → Attributes
  | .node n => (s.node n).attributes
  | .fault e => (s.fault e).attributes
  | .outcome o => (s.outcome o).attributes
  | .callable f => (s.callable f).attributes
  | .object o => (s.object o).attributes
  | .token t => (s.token t).attributes
  | .tree t => (s.tree t).attributes
  | .extent x => s.extent x
  | .position p => s.position p
  | _ => []

/-- An attribute of a value, if it has one of this name. -/
def attribute? (s : Store) (v : Value) (name : String) : Option Value :=
  Environment.get? (s.attributes v) name

/-- An attribute of a value, if it has one of this name that is not null. -/
def said? (s : Store) (v : Value) (name : String) : Option Value :=
  (s.attribute? v name).filter fun w => !w.isNull

/-- The line that a value tells. -/
def line? (s : Store) (v : Value) : Option Value :=
  s.said? v lineName

/-- The column that a value tells. -/
def column? (s : Store) (v : Value) : Option Value :=
  s.said? v columnName

/-- The place of a value in the source; null if it has none. -/
def placeOf (s : Store) (v : Value) : Value :=
  (s.attribute? v placeName).getD .null

/-! ## Text, items and truth -/

/-- The text of a text value; a token counts as its text. -/
def text? (s : Store) : Value → Option String
  | .str t _ => some t
  | .token t => some (s.token t).text
  | _ => none

/-- The items of a list. -/
def listItems? (s : Store) : Value → Option (List Value)
  | .list items stamp => some (items ++ s.addedTo stamp)
  | _ => none

/-- The items of a value that can be walked through: a text is walked by its characters, which have
no stamp of their own, and a dictionary by its keys. -/
def items? (s : Store) (v : Value) : Option (List Value) :=
  match v with
  | .tuple items _ => some items
  | .dict entries _ => some (entries.map (·.1))
  | v =>
    match s.listItems? v with
    | some items => some items
    | none => (s.text? v).map fun t => t.toList.map fun c => .str (String.singleton c) noStamp

/-- The items of a value, or the reason why there are none. -/
def items (s : Store) (v : Value) : Except Misuse (List Value) :=
  match s.items? v with
  | some items => .ok items
  | none => .error (.notIterable (s.hostTypeName v))

/-- How many items a value holds, if it holds any number of them. -/
def length? (s : Store) (v : Value) : Option Nat :=
  (s.items? v).map List.length

/-- The truth of a value that decides it by itself: empty and zero values are false, all others
true. -/
def truth (s : Store) (v : Value) : Bool :=
  match v with
  | .null => false
  | .bool b => b
  | .int n _ => n != 0
  | .float x _ => !x.isZero
  | v =>
    match s.length? v with
    | some n => n != 0
    | none => true

/-- The line and the column that a value tells, unless it tells no line: what `source_pos` finds in
it where it is not blank. -/
def mark? (s : Store) (v : Value) : Option Attributes :=
  (s.line? v).map fun line =>
    [(lineName, line), (columnName, (s.attribute? v columnName).getD .null)]

end Store

end Fallback
