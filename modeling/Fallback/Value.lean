import Fallback.Number.Binary64

/-!
Values.

Plain data is written out in a value. Whatever can be changed after it was made (nodes, faults,
outcomes, callables, host objects, tokens, trees, extents, positions) is held by the store, and a
value refers to it.

Two texts with the same letters are equal without being the same text. To tell this apart, plain
data carries a stamp, which the store gives out once for everything that is made.
`Value.identity` is what a value is as a thing, and `Value.isSame` compares two values by it; of
null, of a truth value, of a small integer, of an empty or very short text and of the empty tuple
there is only one, whatever the stamp.
-/
namespace Fallback

/-! ## References -/

/-- A reference to an expression node. -/
structure NodeRef where
  index : Nat
  deriving DecidableEq, Inhabited

/-- A reference to a fault, which is an exception object. -/
structure FaultRef where
  index : Nat
  deriving DecidableEq, Inhabited

/-- A reference to an outcome. -/
structure OutcomeRef where
  index : Nat
  deriving DecidableEq, Inhabited

/-- A reference to a callable (`CountingCallable`). -/
structure CallableRef where
  index : Nat
  deriving DecidableEq, Inhabited

/-- A reference to a routine, which the host keeps. -/
structure RoutineRef where
  index : Nat
  deriving DecidableEq, Inhabited

/-- A reference to a host object. -/
structure ObjectRef where
  index : Nat
  deriving DecidableEq, Inhabited

/-- A reference to a token of the source text. -/
structure TokenRef where
  index : Nat
  deriving DecidableEq, Inhabited

/-- A reference to a rule of a parse tree. -/
structure TreeRef where
  index : Nat
  deriving DecidableEq, Inhabited

/-- A reference to the extent that a parser notes for a rule (`Meta`). -/
structure ExtentRef where
  index : Nat
  deriving DecidableEq, Inhabited

/-- A reference to a position in the source, as `source_pos` makes them. -/
structure PositionRef where
  index : Nat
  deriving DecidableEq, Inhabited

/-! ## Values -/

/-- A value. `nan` is a number that is no number, and `curio` a thing of which no more is known than
its type. The items of a list are those that it was made with; what was added to it since, the store
keeps under the list's stamp. -/
inductive Value
  | null
  | bool (b : Bool)
  | int (n : Int) (stamp : Nat)
  | float (x : Binary64) (stamp : Nat)
  | nan (stamp : Nat)
  | str (s : String) (stamp : Nat)
  | list (items : List Value) (stamp : Nat)
  | tuple (items : List Value) (stamp : Nat)
  | dict (entries : List (Value × Value)) (stamp : Nat)
  | node (n : NodeRef)
  | fault (e : FaultRef)
  | outcome (o : OutcomeRef)
  | callable (f : CallableRef)
  | routine (r : RoutineRef)
  | object (o : ObjectRef)
  | token (t : TokenRef)
  | tree (t : TreeRef)
  | extent (x : ExtentRef)
  | position (p : PositionRef)
  | curio (typeName : String) (stamp : Nat)
  deriving Inhabited

/-- What a value is as a thing: what its `id` tells. -/
inductive Identity
  | null
  | bool (b : Bool)
  | small (n : Int)
  | emptyText
  | letter (c : Char)
  | emptyTuple
  | stamped (stamp : Nat)
  | node (n : NodeRef)
  | fault (e : FaultRef)
  | outcome (o : OutcomeRef)
  | callable (f : CallableRef)
  | routine (r : RoutineRef)
  | object (o : ObjectRef)
  | token (t : TokenRef)
  | tree (t : TreeRef)
  | extent (x : ExtentRef)
  | position (p : PositionRef)
  deriving DecidableEq, Inhabited

namespace Value

/-- The integer is one of those of which there is only one. -/
def isSmall (n : Int) : Bool :=
  -5 ≤ n && n ≤ 256

/-- The identity of a text: of the empty text and of a single character below U+0100 there is only
one. -/
def textIdentity (s : String) (stamp : Nat) : Identity :=
  match s.toList with
  | [] => .emptyText
  | [c] => if c.toNat < 256 then .letter c else .stamped stamp
  | _ => .stamped stamp

/-- What a value is as a thing. -/
def identity : Value → Identity
  | .null => .null
  | .bool b => .bool b
  | .int n stamp => if isSmall n then .small n else .stamped stamp
  | .float _ stamp => .stamped stamp
  | .nan stamp => .stamped stamp
  | .str s stamp => textIdentity s stamp
  | .list _ stamp => .stamped stamp
  | .tuple items stamp => if items.isEmpty then .emptyTuple else .stamped stamp
  | .dict _ stamp => .stamped stamp
  | .node n => .node n
  | .fault e => .fault e
  | .outcome o => .outcome o
  | .callable f => .callable f
  | .routine r => .routine r
  | .object o => .object o
  | .token t => .token t
  | .tree t => .tree t
  | .extent x => .extent x
  | .position p => .position p
  | .curio _ stamp => .stamped stamp

/-- The two are one and the same thing: they have one `id`. -/
def isSame (v w : Value) : Bool :=
  v.identity = w.identity

/-- The value is null (`is_null`). -/
def isNull : Value → Bool
  | .null => true
  | _ => false

/-- The value, or another one where it is null. -/
def getD (v other : Value) : Value :=
  if v.isNull then other else v

/-- The value is an expression node (`is_node`). -/
def isNode : Value → Bool
  | .node _ => true
  | _ => false

/-- The value is a rule of a parse tree. -/
def isTree : Value → Bool
  | .tree _ => true
  | _ => false

/-- The value can be called. -/
def isCallable : Value → Bool
  | .callable _ | .routine _ => true
  | _ => false

/-- The fault that a value is. -/
def fault? : Value → Option FaultRef
  | .fault e => some e
  | _ => none

/-- The integer that a number without a fraction part is: a truth value counts as one or zero. -/
def int? : Value → Option Int
  | .int n _ => some n
  | .bool b => some (if b then 1 else 0)
  | _ => none

theorem isSame_refl (v : Value) : v.isSame v = true := by
  simp [isSame]

theorem isSame_symm {v w : Value} (h : v.isSame w = true) : w.isSame v = true := by
  simp only [isSame, decide_eq_true_eq] at h ⊢
  exact h.symm

theorem isSame_trans {u v w : Value} (h : u.isSame v = true) (k : v.isSame w = true) :
    u.isSame w = true := by
  simp only [isSame, decide_eq_true_eq] at h k ⊢
  exact h.trans k

end Value

/-! ## Names bound to values -/

/-- Names bound to values, in the order in which they were first bound. -/
abbrev Environment := List (String × Value)

/-- The attributes of a thing by their names. -/
abbrev Attributes := Environment

namespace Environment

/-- The value bound to a name. -/
def get? (env : Environment) (name : String) : Option Value :=
  (env.find? fun b => b.1 = name).map (·.2)

/-- Binds a name, in its old place if it has one. -/
def set : Environment → String → Value → Environment
  | [], name, v => [(name, v)]
  | b :: more, name, v => if b.1 = name then (name, v) :: more else b :: set more name v

/-- Removes the binding of a name. -/
def unset (env : Environment) (name : String) : Environment :=
  env.filter fun b => b.1 != name

theorem get?_set_self (env : Environment) (name : String) (v : Value) :
    (env.set name v).get? name = some v := by
  induction env with
  | nil => simp [set, get?]
  | cons b more ih =>
    by_cases h : b.1 = name
    · simp [set, get?, h]
    · simpa [set, get?, h] using ih

theorem get?_set_of_ne (env : Environment) {name other : String} (v : Value) (h : name ≠ other) :
    (env.set name v).get? other = env.get? other := by
  induction env with
  | nil => simp [set, get?, h]
  | cons b more ih =>
    by_cases hb : b.1 = name
    · simp [set, get?, hb, h]
    · by_cases ho : b.1 = other
      · subst ho
        simp [set, get?, hb]
      · simpa [set, get?, hb, ho] using ih

theorem get?_unset_self (env : Environment) (name : String) :
    (env.unset name).get? name = none := by
  simp [unset, get?, List.find?_filter]

end Environment

end Fallback
