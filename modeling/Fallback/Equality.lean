import Fallback.Display

/-!
Equality and equivalence.

`Store.equal` compares values as data: numbers by what they are worth, lists and tuples item by
item, dictionaries and positions without regard to order, nodes by kind and fields. What is the same
thing counts as equal inside another value, which matters for a number that is no number: it differs
from itself. `Store.equivalent` compares faults by kind, arguments and, for failed calls, by cause.
`Store.checkKey` tells why a value cannot be a key of a dictionary.
-/
namespace Fallback

/-- An answer, unless the values cannot be compared. -/
abbrev Compared := Except Misuse Bool

/-- Both comparisons hold; the second is made only if the first holds. -/
def bothHold (x : Compared) (y : Unit → Compared) : Compared := do
  if ← x then y () else return false

/-- The two are the same thing, or related. -/
def sameOr (related : Value → Value → Compared) (a b : Value) : Compared :=
  if a.isSame b then .ok true else related a b

/-- The two are related as keys: a rule of a parse tree is only like another rule. -/
def asKeys (related : Value → Value → Compared) (a b : Value) : Compared :=
  if a.isTree = b.isTree then related a b else .ok false

/-- Items at the same places are related, as far as both lists go, and the lists are of the same
length. -/
def relatedItems (related : Value → Value → Compared) : List Value → List Value → Compared
  | [], [] => .ok true
  | a :: as, b :: bs => bothHold (related a b) fun _ => relatedItems related as bs
  | _, _ => .ok false

/-- The value of the first entry with a key related to `key`. -/
def findEntry (related : Value → Value → Compared) (key : Value) :
    List (Value × Value) → Except Misuse (Option Value)
  | [] => .ok none
  | entry :: more => do
    if ← related key entry.1 then return some entry.2 else findEntry related key more

/-- Every key of the first dictionary has a related key with a related value in the second. -/
def relatedEntries (related : Value → Value → Compared) :
    List (Value × Value) → List (Value × Value) → Compared
  | [], _ => .ok true
  | entry :: more, others => do
    match ← findEntry (asKeys related) entry.1 others with
    | none => return false
    | some v => bothHold (related entry.2 v) fun _ => relatedEntries related more others

/-- Every attribute of the first list has a related one of the same name in the second. -/
def relatedAttributes (related : Value → Value → Compared) : Attributes → Attributes → Compared
  | [], _ => .ok true
  | a :: more, others =>
    match Environment.get? others a.1 with
    | none => .ok false
    | some v => bothHold (related a.2 v) fun _ => relatedAttributes related more others

/-- The answer, where a missing attribute means no. -/
def withoutAttribute (x : Compared) : Compared :=
  match x with
  | .error (.missingAttribute _ _) => .ok false
  | x => x

/-- Equality of numbers by what they are worth; values that are no numbers are not equal. -/
def equalNumbers (v w : Value) : Bool :=
  match v.int?, w.int? with
  | some m, some n => m = n
  | some m, none => match w with | .float y _ => y.equalsInt m | _ => false
  | none, some n => match v with | .float x _ => x.equalsInt n | _ => false
  | none, none => match v, w with | .float x _, .float y _ => x.equals y | _, _ => false

namespace Store

mutual

/-- Equality of values; `depth` bounds the nesting. -/
def equal (s : Store) : Nat → Value → Value → Compared
  | 0, _, _ => .error .tooDeep
  | depth + 1, v, w =>
    let part := sameOr (s.equal depth)
    match v, w with
    | .tree a, b => s.equalTree depth a b
    | a, .tree b => s.equalTree depth b a
    | .tuple as _, .tuple bs _ => relatedItems part as bs
    | .dict as _, .dict bs _ =>
      if as.length = bs.length then relatedEntries part as bs else .ok false
    | .position a, .position b =>
      let as := s.position a
      let bs := s.position b
      if as.length = bs.length then relatedAttributes part as bs else .ok false
    | .node a, .node b =>
      let f := s.form a
      let g := s.form b
      match depth with
      | below + 2 =>
        if f.kind = g.kind then relatedItems (sameOr (s.equal below)) f.values g.values
        else .ok false
      | _ => .error .tooDeep
    | .outcome a, .outcome b =>
      match depth, (s.outcome a).result, (s.outcome b).result with
      | below + 1, .success x, .success y => sameOr (s.equal below) x y
      | below + 1, .raised x, .raised y => s.equivalent below x y
      | 0, _, _ => .error .tooDeep
      | _, _, _ => .ok false
    | .token a, .token b =>
      let t := s.token a
      let u := s.token b
      bothHold (s.equal depth t.kind u.kind) fun _ => .ok (t.text = u.text)
    | a, b =>
      match s.listItems? a, s.listItems? b with
      | some as, some bs => if as.length = bs.length then relatedItems part as bs else .ok false
      | _, _ =>
        match s.text? a, s.text? b with
        | some x, some y => .ok (x = y)
        | _, _ => .ok (equalNumbers a b || (a.isSame b && !a matches .nan _))

/-- Equality of a rule of a parse tree with a value: it asks the value for a label and for children.
A value without them is different. -/
def equalTree (s : Store) : Nat → TreeRef → Value → Compared
  | 0, _, _ => .error .tooDeep
  | depth + 1, t, w =>
    match s.attribute? w labelName with
    | none => .ok false
    | some label =>
      withoutAttribute <| bothHold (s.equal depth (s.tree t).label label) fun _ =>
        match s.attribute? w childrenName with
        | none => .ok false
        | some children => s.equal depth (s.tree t).children children

/-- Equivalence of faults (`same_exception`): the same fault, or the same kind with equal arguments
and, for failed calls, equivalent causes. Null is equivalent to itself alone. Whatever has arguments
can be compared like a fault. -/
def equivalent (s : Store) : Nat → Value → Value → Compared
  | 0, _, _ => .error .tooDeep
  | depth + 1, v, w =>
    let args (a : Value) : Except Misuse Value :=
      match s.attribute? a argsName with
      | some x => .ok x
      | none => .error (.missingAttribute (s.hostTypeName a) argsName)
    if v.isSame w then .ok true
    else if v.isNull || w.isNull then .ok false
    else if s.typeName v ≠ s.typeName w then .ok false
    else do
      let a ← args v
      let b ← args w
      let agree : Bool ← match a, b with
        | .token t, .token u => .ok ((s.token t).text = (s.token u).text)
        | _, _ => s.equal depth a b
      if agree then
        match v, w with
        | .fault e, .fault f =>
          match (s.fault e).kind, (s.fault e).cause?, (s.fault f).cause? with
          | .failedCall, some c, some d => s.equivalent depth c d
          | _, _, _ => return true
        | _, _ => return true
      else return false

end

/-- The values are equal (`==`). -/
def areEqual (s : Store) (v w : Value) : Compared :=
  s.equal s.interpreter.valueDepth v w

/-- The values are one and the same key. -/
def areSameKey (s : Store) (v w : Value) : Compared :=
  asKeys (sameOr s.areEqual) v w

/-- The faults are equivalent (`same_exception`). -/
def areEquivalent (s : Store) (v w : Value) : Compared :=
  s.equivalent s.interpreter.valueDepth v w

/-! ## Keys -/

/-- The reason why a value cannot be a key, found in the order of its fields. `depth` bounds the
nesting. -/
def hashCheck (s : Store) : Nat → Value → Except Misuse Unit
  | 0, _ => .error .tooDeep
  | depth + 1, v =>
    let all (vs : List Value) : Except Misuse Unit := vs.forM (s.hashCheck depth)
    match v with
    | .list _ _ | .dict _ _ | .outcome _ | .position _ =>
      .error (.unhashable (s.hostTypeName v))
    | .tuple items _ => all items
    | .node n =>
      match depth with
      | below + 1 => (s.form n).values.forM (s.hashCheck below)
      | 0 => .error .tooDeep
    | .tree t => do
      let cell := s.tree t
      all (cell.label :: (← s.items cell.children))
    | _ => .ok ()

/-- The value can be a key: it has a `hash`. -/
def checkKey (s : Store) (v : Value) : Except Misuse Unit :=
  s.hashCheck s.interpreter.valueDepth v

end Store

end Fallback
