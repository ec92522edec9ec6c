import Fallback.Attempt

/-!
Making nodes out of values.

Every constructor takes any values for its fields and ends with the report of a broken tree when a
child is no node, a name is empty or no text, or a raised thing is no fault that can be raised. A
callable in the place of a callee stands for a literal that holds it, and a text in the place of a
raised fault for a recoverable fault with that message.
-/
namespace Fallback

namespace Attempt

/-- Ends with the report of a broken tree, unless all values are nodes (`_require_nodes`). -/
def requireNodes (kind : NodeKind) (place : Value) : List Value → Attempt Unit
  | [] => return ()
  | v :: more => do
    if v.isNode then requireNodes kind place more
    else
      malformed place (kind.name ++ " child must be an expression node, got " ++ (← typeName v))

/-- A literal (`Literal`). -/
def literal (v place : Value) : Attempt NodeRef :=
  newNode (.literal v) place

/-- A reference to a name (`VariableRef`); its name is checked in `__post_init__`. -/
def reference (name place : Value) : Attempt NodeRef := do
  match (← get).text? name with
  | some t => if t = "" then refuse else newNode (.reference name) place
  | none => refuse
where
  refuse : Attempt NodeRef := do
    let shown ← ask fun s => s.quotedText name
    malformed place ("Variable name must be a non-empty string, got " ++ shown)

/-- A call (`Call`); in `__post_init__` a callable becomes a literal, and the arguments become a
tuple. -/
def call (callee args place : Value) : Attempt NodeRef := do
  let callee ← if callee.isCallable then Value.node <$> literal callee .null else pure callee
  let args ← tupleOf args
  requireNodes .call place (callee :: (← items args))
  newNode (.call callee args) place

/-- One of the three operators that fall back (`ExceptionCoalesce`, `NullCoalesce`, `ShortTernary`).
-/
def fallback (op : Operator) (lhs rhs place : Value) : Attempt NodeRef := do
  requireNodes (.fallback op) place [lhs, rhs]
  newNode (.fallback op lhs rhs) place

/-- A choice between two branches (`Ternary`). -/
def ternary (condition thenBranch elseBranch place : Value) : Attempt NodeRef := do
  requireNodes .ternary place [condition, thenBranch, elseBranch]
  newNode (.ternary condition thenBranch elseBranch) place

/-- A node that raises a fault (`Raise`); in `__post_init__` a text becomes a recoverable fault. -/
def raises (exception place : Value) : Attempt NodeRef := do
  let s ← get
  match s.text? exception, exception with
  | some _, _ =>
    let e ← newFault .recoverable (← tuple [exception]) .null []
    newNode (.raise (.fault e)) place
  | none, .fault e =>
    if (s.fault e).kind.isOrdinary then newNode (.raise exception) place else refuse
  | none, _ => refuse
where
  refuse : Attempt NodeRef := do
    malformed place ("Raise expects an exception, got " ++ (← typeName exception))

/-- A node made of a form that no constructor has checked yet. -/
def node (form : Form) (place : Value) : Attempt NodeRef :=
  match form with
  | .literal v => literal v place
  | .reference name => reference name place
  | .call callee args => call callee args place
  | .fallback op lhs rhs => fallback op lhs rhs place
  | .ternary condition thenBranch elseBranch => ternary condition thenBranch elseBranch place
  | .raise exception => raises exception place

end Attempt

end Fallback
