import Fallback.Interpreter
import Fallback.Node

/-!
The store: everything that can be changed after it was made.

Cells are only ever added at the end, so a reference made earlier keeps its cell, and the children
of a node made by a constructor were there before the node. A cell is changed by overwriting an
attribute of the thing that it holds.
-/
namespace Fallback

/-! ## Cells -/

/-- What an evaluation ends with: a value, or whatever was raised (`Success`, `Raised`). -/
inductive Result
  | success (v : Value)
  | raised (e : Value)
  deriving Inhabited

/-- A kept outcome (`Success` or `Raised`): a result, and what else it was given. -/
structure OutcomeCell where
  result : Result
  extras : Attributes
  deriving Inhabited

/-- A callable (`CountingCallable`): the routine that it was made for, what it runs (`fn`), its
name, the list of the arguments of its invocations (`calls`), and what else it was given. -/
structure Callable where
  own : RoutineRef
  routine : Value
  name : Value
  calls : Value
  extras : Attributes
  deriving Inhabited

/-- A host object: whether it answers a truth test itself, whether it has a size, and what it
carries. The class of an object settles its tests, and its attributes settle their results. -/
structure HostObject where
  testsTruth : Bool
  hasSize : Bool
  attributes : Attributes
  deriving Inhabited

/-- A token of the source text: its text, its kind (`type`), the value that the text stands for, and
the marks of its place (`line`, `column` and the like). -/
structure Token where
  text : String
  kind : Value
  value : Value
  marks : Attributes
  deriving Inhabited

/-- A rule of a parse tree: its label (`data`), its children and its extent (`meta`), and what else
it was given. -/
structure Tree where
  label : Value
  children : Value
  extent : Value
  extras : Attributes
  deriving Inhabited

/-- An invocation of a callable with arguments. -/
structure Invocation where
  callee : CallableRef
  args : List Value
  deriving Inhabited

/-- An item that was added to the list with a stamp. -/
structure Addition where
  stamp : Nat
  item : Value
  deriving Inhabited

/-! ## The store -/

/-- The cells, the invocations and the additions to lists so far in their order, the next stamp, and
the interpreter that all of this is in. -/
structure Store where
  nodes : Array Node
  faults : Array Fault
  outcomes : Array OutcomeCell
  callables : Array Callable
  objects : Array HostObject
  tokens : Array Token
  trees : Array Tree
  extents : Array Attributes
  positions : Array Attributes
  invocations : Array Invocation
  additions : Array Addition
  nextStamp : Nat
  interpreter : Interpreter
  deriving Inhabited

namespace Store

/-- The stamp that is never given out. -/
def noStamp : Nat :=
  0

/-- The store of a usual interpreter in which nothing was made yet. -/
def empty : Store :=
  ⟨#[], #[], #[], #[], #[], #[], #[], #[], #[], #[], #[], noStamp + 1, .standard⟩

/-! ## Looking up -/

/-- The node behind a reference. -/
def node (s : Store) (n : NodeRef) : Node :=
  s.nodes[n.index]?.getD default

/-- The fault behind a reference. -/
def fault (s : Store) (e : FaultRef) : Fault :=
  s.faults[e.index]?.getD default

/-- The outcome behind a reference. -/
def outcome (s : Store) (o : OutcomeRef) : OutcomeCell :=
  s.outcomes[o.index]?.getD default

/-- The callable behind a reference. -/
def callable (s : Store) (f : CallableRef) : Callable :=
  s.callables[f.index]?.getD default

/-- The host object behind a reference. -/
def object (s : Store) (o : ObjectRef) : HostObject :=
  s.objects[o.index]?.getD default

/-- The token behind a reference. -/
def token (s : Store) (t : TokenRef) : Token :=
  s.tokens[t.index]?.getD default

/-- The rule behind a reference. -/
def tree (s : Store) (t : TreeRef) : Tree :=
  s.trees[t.index]?.getD default

/-- The extent behind a reference, as its attributes. -/
def extent (s : Store) (x : ExtentRef) : Attributes :=
  s.extents[x.index]?.getD []

/-- The position behind a reference, as its attributes. -/
def position (s : Store) (p : PositionRef) : Attributes :=
  s.positions[p.index]?.getD []

/-- The items that were added to the list with a stamp, in their order. -/
def addedTo (s : Store) (stamp : Nat) : List Value :=
  (s.additions.toList.filter fun a => a.stamp = stamp).map Addition.item

/-- The callable that a routine was made for. -/
def ownerOf? (s : Store) (r : RoutineRef) : Option CallableRef :=
  (s.callables.findIdx? fun f => f.own = r).map CallableRef.mk

/-- The form of a node. -/
def form (s : Store) (n : NodeRef) : Form :=
  (s.node n).form

/-! ## Adding cells -/

/-- Gives out a stamp. -/
def addStamp (s : Store) : Nat × Store :=
  (s.nextStamp, { s with nextStamp := s.nextStamp + 1 })

/-- Adds a node. -/
def addNode (s : Store) (n : Node) : NodeRef × Store :=
  (⟨s.nodes.size⟩, { s with nodes := s.nodes.push n })

/-- Adds a fault. -/
def addFault (s : Store) (e : Fault) : FaultRef × Store :=
  (⟨s.faults.size⟩, { s with faults := s.faults.push e })

/-- Adds an outcome. -/
def addOutcome (s : Store) (r : Result) : OutcomeRef × Store :=
  (⟨s.outcomes.size⟩, { s with outcomes := s.outcomes.push ⟨r, []⟩ })

/-- Adds a callable that runs a routine. -/
def addCallable (s : Store) (name : Value) (routine : RoutineRef) : CallableRef × Store :=
  let cell := ⟨routine, .routine routine, name, .list [] s.nextStamp, []⟩
  (⟨s.callables.size⟩,
    { s with callables := s.callables.push cell, nextStamp := s.nextStamp + 1 })

/-- Adds a host object. -/
def addObject (s : Store) (o : HostObject) : ObjectRef × Store :=
  (⟨s.objects.size⟩, { s with objects := s.objects.push o })

/-- Adds a token. -/
def addToken (s : Store) (t : Token) : TokenRef × Store :=
  (⟨s.tokens.size⟩, { s with tokens := s.tokens.push t })

/-- Adds a rule of a parse tree. -/
def addTree (s : Store) (t : Tree) : TreeRef × Store :=
  (⟨s.trees.size⟩, { s with trees := s.trees.push t })

/-- Adds an extent. -/
def addExtent (s : Store) (x : Attributes) : ExtentRef × Store :=
  (⟨s.extents.size⟩, { s with extents := s.extents.push x })

/-- Adds a position. -/
def addPosition (s : Store) (p : Attributes) : PositionRef × Store :=
  (⟨s.positions.size⟩, { s with positions := s.positions.push p })

/-- Notes an invocation. -/
def addInvocation (s : Store) (callee : CallableRef) (args : List Value) : Store :=
  { s with invocations := s.invocations.push ⟨callee, args⟩ }

/-- Adds an item to the list with a stamp. -/
def addItem (s : Store) (stamp : Nat) (item : Value) : Store :=
  { s with additions := s.additions.push ⟨stamp, item⟩ }

/-! ## Changing cells -/

/-- Puts a node in the place of another. -/
def setNode (s : Store) (r : NodeRef) (n : Node) : Store :=
  { s with nodes := s.nodes.setIfInBounds r.index n }

/-- Puts a fault in the place of another. -/
def setFault (s : Store) (r : FaultRef) (e : Fault) : Store :=
  { s with faults := s.faults.setIfInBounds r.index e }

/-- Attaches a place to a fault. -/
def locate (s : Store) (r : FaultRef) (place : Value) : Store :=
  s.setFault r { s.fault r with place }

/-! ## Laws -/

theorem node_addNode_self (s : Store) (n : Node) : (s.addNode n).2.node (s.addNode n).1 = n := by
  simp [addNode, node]

theorem node_addNode_of_lt {s : Store} {r : NodeRef} (n : Node) (h : r.index < s.nodes.size) :
    (s.addNode n).2.node r = s.node r := by
  simp [addNode, node, Array.getElem?_push, Nat.ne_of_lt h]

theorem fault_addFault_self (s : Store) (e : Fault) :
    (s.addFault e).2.fault (s.addFault e).1 = e := by
  simp [addFault, fault]

theorem fault_addFault_of_lt {s : Store} {r : FaultRef} (e : Fault)
    (h : r.index < s.faults.size) : (s.addFault e).2.fault r = s.fault r := by
  simp [addFault, fault, Array.getElem?_push, Nat.ne_of_lt h]

theorem outcome_addOutcome_self (s : Store) (r : Result) :
    ((s.addOutcome r).2.outcome (s.addOutcome r).1).result = r := by
  simp [addOutcome, outcome]

theorem outcome_addOutcome_of_lt {s : Store} {o : OutcomeRef} (r : Result)
    (h : o.index < s.outcomes.size) : (s.addOutcome r).2.outcome o = s.outcome o := by
  simp [addOutcome, outcome, Array.getElem?_push, Nat.ne_of_lt h]

theorem node_addFault (s : Store) (e : Fault) (r : NodeRef) :
    (s.addFault e).2.node r = s.node r := rfl

theorem node_addOutcome (s : Store) (o : Result) (r : NodeRef) :
    (s.addOutcome o).2.node r = s.node r := rfl

theorem fault_addNode (s : Store) (n : Node) (r : FaultRef) :
    (s.addNode n).2.fault r = s.fault r := rfl

theorem addedTo_addItem_self (s : Store) (stamp : Nat) (item : Value) :
    (s.addItem stamp item).addedTo stamp = s.addedTo stamp ++ [item] := by
  simp [addItem, addedTo]

theorem addedTo_addItem_of_ne (s : Store) {stamp other : Nat} (item : Value) (h : stamp ≠ other) :
    (s.addItem stamp item).addedTo other = s.addedTo other := by
  simp [addItem, addedTo, h]

/-- Overwriting a fault that was just added is adding another one instead. -/
theorem setFault_addFault (s : Store) (e e' : Fault) :
    (s.addFault e).2.setFault (s.addFault e).1 e' = (s.addFault e').2 := by
  simp only [addFault, setFault, mk.injEq, true_and, and_true]
  apply Array.ext_getElem?
  intro i
  rw [Array.getElem?_setIfInBounds, Array.getElem?_push, Array.getElem?_push]
  by_cases h : i = s.faults.size
  · simp [h]
  · simp [h, Ne.symm h]

theorem fault_locate_self {s : Store} {e : FaultRef} (place : Value)
    (h : e.index < s.faults.size) :
    (s.locate e place).fault e = { s.fault e with place } := by
  simp [locate, setFault, fault, h]

theorem fault_locate_of_ne (s : Store) {e r : FaultRef} (place : Value) (h : r ≠ e) :
    (s.locate e place).fault r = s.fault r := by
  have hi : e.index ≠ r.index := fun same => h (by cases e; cases r; simpa using same.symm)
  simp [locate, setFault, fault, hi]

/-- There is nothing to attach a place to where there is no fault. -/
theorem locate_of_le {s : Store} {e : FaultRef} (place : Value) (h : s.faults.size ≤ e.index) :
    s.locate e place = s := by
  simp [locate, setFault, Array.setIfInBounds, Nat.not_lt_of_le h]

theorem node_locate (s : Store) (e : FaultRef) (place : Value) (r : NodeRef) :
    (s.locate e place).node r = s.node r := rfl

end Store

/-! ## Outcomes -/

/-- An outcome together with its result as it was when the outcome was made. -/
structure Outcome where
  self : OutcomeRef
  result : Result
  deriving Inhabited

namespace Outcome

/-- An outcome as a value. -/
def toValue (o : Outcome) : Value :=
  .outcome o.self

/-- The outcome is a raised one. -/
def isRaised (o : Outcome) : Bool :=
  match o.result with
  | .success _ => false
  | .raised _ => true

end Outcome

end Fallback
