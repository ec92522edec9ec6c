import Fallback.Value

/-!
Expression nodes: `Literal`, `VariableRef`, `Call`, `ExceptionCoalesce`, `NullCoalesce`,
`ShortTernary`, `Ternary` and `Raise`.

The three operators that fall back to their right operand are one form with a parameter: they
differ only in the outcomes of the left operand that make them fall back. The constructors of nodes
see to it that the children are nodes; but a field can be overwritten afterwards, so it may hold any
value.
-/
namespace Fallback

/-- When a binary operator falls back to its right operand: on a fault (`???`), on null (`??`) or on
a false value (`?:`). -/
inductive Operator
  | onFault
  | onNull
  | onFalse
  deriving DecidableEq, Inhabited

/-- The name of the operator's nodes. -/
def Operator.name : Operator → String
  | .onFault => "ExceptionCoalesce"
  | .onNull => "NullCoalesce"
  | .onFalse => "ShortTernary"

/-- The kinds of nodes. -/
inductive NodeKind
  | literal
  | reference
  | call
  | fallback (op : Operator)
  | ternary
  | raise
  deriving DecidableEq, Inhabited

namespace NodeKind

/-- The name of the kind in messages. -/
def name : NodeKind → String
  | literal => "Literal"
  | reference => "VariableRef"
  | call => "Call"
  | fallback op => op.name
  | ternary => "Ternary"
  | raise => "Raise"

/-- The names of the fields in their order. -/
def fieldNames : NodeKind → List String
  | literal => ["value"]
  | reference => ["name"]
  | call => ["callee", "args"]
  | fallback _ => ["lhs", "rhs"]
  | ternary => ["condition", "then_branch", "else_branch"]
  | raise => ["exception"]

end NodeKind

/-- The form of a node: which of the classes of nodes it is of, and what its fields hold. The names
of the classes are those of `NodeKind.name`. -/
inductive Form
  | literal (value : Value)
  | reference (name : Value)
  | call (callee args : Value)
  | fallback (op : Operator) (lhs rhs : Value)
  | ternary (condition thenBranch elseBranch : Value)
  | raise (exception : Value)
  deriving Inhabited

namespace Form

/-- The kind of the nodes that have this form. -/
def kind : Form → NodeKind
  | .literal _ => .literal
  | .reference _ => .reference
  | .call _ _ => .call
  | .fallback op _ _ => .fallback op
  | .ternary _ _ _ => .ternary
  | .raise _ => .raise

/-- What the fields hold, in their order. -/
def values : Form → List Value
  | .literal value => [value]
  | .reference name => [name]
  | .call callee args => [callee, args]
  | .fallback _ lhs rhs => [lhs, rhs]
  | .ternary condition thenBranch elseBranch => [condition, thenBranch, elseBranch]
  | .raise exception => [exception]

/-- The fields by their names. -/
def fields (f : Form) : Attributes :=
  f.kind.fieldNames.zip f.values

/-- The form of a kind whose fields hold the given values, if there are as many as fields. -/
def ofValues? : NodeKind → List Value → Option Form
  | .literal, [value] => some (.literal value)
  | .reference, [name] => some (.reference name)
  | .call, [callee, args] => some (.call callee args)
  | .fallback op, [lhs, rhs] => some (.fallback op lhs rhs)
  | .ternary, [condition, thenBranch, elseBranch] =>
    some (.ternary condition thenBranch elseBranch)
  | .raise, [exception] => some (.raise exception)
  | _, _ => none

/-- The form with a field overwritten; none if it has no such field. -/
def setField? (f : Form) (name : String) (v : Value) : Option Form :=
  if f.kind.fieldNames.contains name then
    ofValues? f.kind ((Environment.set f.fields name v).map (·.2))
  else none

theorem ofValues?_values (f : Form) : ofValues? f.kind f.values = some f := by
  cases f <;> rfl

theorem length_values (f : Form) : f.values.length = f.kind.fieldNames.length := by
  cases f <;> rfl

end Form

/-- A node: its form, its place in the source (`meta`), which may be any value and is null when
there is none, and what else it was given. -/
structure Node where
  form : Form
  place : Value
  extras : Attributes
  deriving Inhabited

end Fallback
