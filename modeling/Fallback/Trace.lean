import Fallback.Attempt

/-!
Traces and debug records: what can be observed of an evaluation while it runs.

A trace notes when a node is entered and when it is left, and counts the entries of each node. It
keeps a running depth of its own; after an evaluation that was broken off the depth stays where it
was. Nodes are told apart by their identity. A trace takes down whatever it is given, so a node may
be any value, and so may the outcome that a node is left with.
-/
namespace Fallback

/-- A node is entered, or left with an outcome (`TraceEvent`). -/
inductive TraceEvent
  | enter (n : Value) (depth : Int)
  | exit (n : Value) (depth : Int) (outcome : Value)
  deriving Inhabited

/-- The node of an event. -/
def TraceEvent.node : TraceEvent → Value
  | .enter n _ => n
  | .exit n _ _ => n

/-- The events so far, the entries counted for each node, and the running depth (`EvalTrace`). -/
structure Trace where
  events : Array TraceEvent
  counts : List (Identity × Nat)
  depth : Int

namespace Trace

/-- The trace that has seen nothing. -/
def empty : Trace :=
  ⟨#[], [], 0⟩

/-- The counts with one more entry of a node. -/
def bump (id : Identity) : List (Identity × Nat) → List (Identity × Nat)
  | [] => [(id, 1)]
  | c :: more => if c.1 = id then (id, c.2 + 1) :: more else c :: bump id more

/-- Notes that a node is entered (`EvalTrace.enter`). -/
def enter (t : Trace) (n : Value) : Trace :=
  ⟨t.events.push (.enter n t.depth), bump n.identity t.counts, t.depth + 1⟩

/-- Notes that a node is left (`EvalTrace.exit`). -/
def exit (t : Trace) (n outcome : Value) : Trace :=
  ⟨t.events.push (.exit n (t.depth - 1) outcome), t.counts, t.depth - 1⟩

/-- How often a node was entered (`EvalTrace.count`). -/
def count (t : Trace) (n : Value) : Nat :=
  ((t.counts.find? fun c => c.1 = n.identity).map (·.2)).getD 0

/-- The nodes in the order in which they were entered (`EvalTrace.order`). -/
def order (t : Trace) : List Value :=
  t.events.toList.filterMap fun
    | .enter n _ => some n
    | .exit _ _ _ => none

/-- The outcome noted when a node was last left (`EvalTrace.outcome_of`); null if it never was. -/
def outcomeOf (t : Trace) (n : Value) : Value :=
  (t.events.toList.reverse.findSome? fun
    | .exit m _ outcome => if m.isSame n then some outcome else none
    | .enter _ _ => none).getD .null

/-- Every node that was entered was left (`EvalTrace.balanced`). -/
def isBalanced (t : Trace) : Bool :=
  t.depth = 0

/-- The distinct nodes of the events in the order of their first appearance. -/
def nodes (t : Trace) : List Identity :=
  (t.events.toList.map fun e => e.node.identity).eraseDups

theorem order_enter (t : Trace) (n : Value) : (t.enter n).order = t.order ++ [n] := by
  simp [order, enter]

theorem order_exit (t : Trace) (n o : Value) : (t.exit n o).order = t.order := by
  simp [order, exit]

theorem depth_exit_enter (t : Trace) (n m o : Value) : ((t.enter n).exit m o).depth = t.depth := by
  simp [enter, exit]

theorem outcomeOf_exit_self (t : Trace) (n o : Value) : (t.exit n o).outcomeOf n = o := by
  simp [outcomeOf, exit, Value.isSame_refl]

end Trace

/-- The text of an event. -/
def Store.eventText (s : Store) (e : TraceEvent) : Shown := do
  let (kind, depth, outcome) := match e with
    | .enter _ depth => ("enter", depth, Value.null)
    | .exit _ depth outcome => ("exit", depth, outcome)
  return "TraceEvent(kind=" ++ Text.quote kind ++ ", node=" ++ (← s.quotedText e.node) ++
    ", depth=" ++ (← showInt depth) ++ ", outcome=" ++ (← s.quotedText outcome) ++ ")"

/-- The text of a trace. -/
def Store.traceText (s : Store) (t : Trace) : Shown := do
  return "EvalTrace(events=[" ++ joined (← t.events.toList.mapM s.eventText) ++ "])"

/-- A debug record, as `eval_node` and `eval_exception_coalesce` write them: a node of a kind is
entered or left at a depth, or an operator falls back with so many nodes open. -/
inductive LogRecord
  | enter (depth : Nat) (kind : String)
  | exit (depth : Nat) (kind : String) (raised : Bool)
  | fallingBack (depth : Nat)
  deriving DecidableEq, Inhabited

namespace LogRecord

/-- Two spaces for every level. -/
def indent (depth : Nat) : String :=
  String.ofList (List.replicate (2 * depth) ' ')

/-- The text of a record. -/
def message : LogRecord → String
  | .enter depth kind => indent depth ++ "enter " ++ kind
  | .exit depth kind raised =>
    indent depth ++ "exit " ++ kind ++ " -> " ++ (if raised then "Raised" else "Success")
  | .fallingBack depth =>
    "exception-coalesce at depth " ++ toString depth ++ ": falling back to rhs"

end LogRecord

end Fallback
