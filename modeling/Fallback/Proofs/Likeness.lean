import Fallback.Display
import Mathlib.Data.List.Forall2
import Mathlib.Order.Defs.PartialOrder

/-!
Likeness of values and of stores.

Of two evaluations that go the same way the one may make a fault that the other does not make. From
then on one and the same fault has different references in the two stores. A `Pairing` says which
references belong together, and which faults are hidden: these belong to no other, and nothing that
counts leads to them. `Value.Like` says that two values are the same up to that, and `Store.Like`
that all things in two stores are.

What is asked of like values in like stores has like answers. Whether two values are one and the
same thing is the same question on both sides, because a pairing takes every fault to at most one.
-/
namespace Fallback

open List (Forall₂)

/-! ## Pairings -/

/-- Which fault of a first store belongs to which of a second, which outcomes count, each belonging
to itself, and which faults are hidden in the first and in the second store. -/
structure Pairing where
  faults : FaultRef → FaultRef → Prop
  outcomes : OutcomeRef → Prop
  hidden : FaultRef → Prop
  hidden' : FaultRef → Prop

namespace Pairing

/-- The second pairing says all that the first says. -/
structure Below (ρ ρ' : Pairing) : Prop where
  faults {x y : FaultRef} (h : ρ.faults x y) : ρ'.faults x y
  outcomes {o : OutcomeRef} (h : ρ.outcomes o) : ρ'.outcomes o
  hidden {x : FaultRef} (h : ρ.hidden x) : ρ'.hidden x
  hidden' {y : FaultRef} (h : ρ.hidden' y) : ρ'.hidden' y

instance : Preorder Pairing where
  le := Below
  le_refl _ := ⟨id, id, id, id⟩
  le_trans _ _ _ h k := ⟨fun x => k.faults (h.faults x), fun x => k.outcomes (h.outcomes x),
    fun x => k.hidden (h.hidden x), fun x => k.hidden' (h.hidden' x)⟩

/-- The pairing with one more pair of faults. -/
def pair (ρ : Pairing) (x y : FaultRef) : Pairing :=
  { ρ with faults := fun x' y' => ρ.faults x' y' ∨ (x' = x ∧ y' = y) }

/-- The pairing with one more outcome that counts. -/
def count (ρ : Pairing) (o : OutcomeRef) : Pairing :=
  { ρ with outcomes := fun o' => ρ.outcomes o' ∨ o' = o }

/-- The pairing with one more fault that is hidden in the first store. -/
def hide (ρ : Pairing) (x : FaultRef) : Pairing :=
  { ρ with hidden := fun x' => ρ.hidden x' ∨ x' = x }

/-- The pairing with one more fault that is hidden in the second store. -/
def hide' (ρ : Pairing) (y : FaultRef) : Pairing :=
  { ρ with hidden' := fun y' => ρ.hidden' y' ∨ y' = y }

theorem le_pair (ρ : Pairing) (x y : FaultRef) : ρ ≤ ρ.pair x y :=
  ⟨.inl, id, id, id⟩

theorem le_count (ρ : Pairing) (o : OutcomeRef) : ρ ≤ ρ.count o :=
  ⟨id, .inl, id, id⟩

theorem le_hide (ρ : Pairing) (x : FaultRef) : ρ ≤ ρ.hide x :=
  ⟨id, id, .inl, id⟩

theorem le_hide' (ρ : Pairing) (y : FaultRef) : ρ ≤ ρ.hide' y :=
  ⟨id, id, id, .inl⟩

/-- Everything that was made in a store belongs to itself, and nothing is hidden. -/
def identity (s : Store) : Pairing :=
  ⟨fun x y => x = y ∧ x.index < s.faults.size, fun o => o.index < s.outcomes.size,
    fun _ => False, fun _ => False⟩

end Pairing

variable {ρ ρ' : Pairing}

/-! ## Values -/

/-- The value leads to no fault and to no outcome. -/
def Value.isPlain : Value → Bool
  | .list _ _ | .tuple _ _ | .dict _ _ | .fault _ | .outcome _ => false
  | _ => true

/-- The values are the same up to a pairing. -/
inductive Value.Like (ρ : Pairing) : Value → Value → Prop
  | plain {v : Value} (h : v.isPlain = true) : Like ρ v v
  | fault {x y : FaultRef} (h : ρ.faults x y) : Like ρ (.fault x) (.fault y)
  | outcome {o : OutcomeRef} (h : ρ.outcomes o) : Like ρ (.outcome o) (.outcome o)
  | list {vs ws : List Value} (stamp : Nat) (h : Forall₂ (Like ρ) vs ws) :
    Like ρ (.list vs stamp) (.list ws stamp)
  | tuple {vs ws : List Value} (stamp : Nat) (h : Forall₂ (Like ρ) vs ws) :
    Like ρ (.tuple vs stamp) (.tuple ws stamp)
  | dict {es fs : List (Value × Value)} (stamp : Nat)
    (keys : Forall₂ (Like ρ) (es.map Prod.fst) (fs.map Prod.fst))
    (values : Forall₂ (Like ρ) (es.map Prod.snd) (fs.map Prod.snd)) :
    Like ρ (.dict es stamp) (.dict fs stamp)

/-- The values are like one another, one by one. -/
abbrev Value.AllLike (ρ : Pairing) : List Value → List Value → Prop :=
  Forall₂ (Value.Like ρ)

theorem Value.Like.mono (le : ρ ≤ ρ') {v w : Value} (h : v.Like ρ w) : v.Like ρ' w :=
  @Value.Like.rec ρ (fun v w _ => v.Like ρ' w) (fun vs ws _ => AllLike ρ' vs ws)
    (fun h => .plain h) (fun h => .fault (le.faults h)) (fun h => .outcome (le.outcomes h))
    (fun stamp _ all => .list stamp all) (fun stamp _ all => .tuple stamp all)
    (fun stamp _ _ keys values => .dict stamp keys values) .nil (fun _ _ => .cons) v w h

theorem Value.AllLike.mono (le : ρ ≤ ρ') {vs ws : List Value} (h : AllLike ρ vs ws) :
    AllLike ρ' vs ws :=
  h.imp fun _ _ like => like.mono le

/-- Names bound to like values: the same names in the same order. -/
def Environment.Like (ρ : Pairing) : Environment → Environment → Prop :=
  Forall₂ fun a b => a.1 = b.1 ∧ a.2.Like ρ b.2

theorem Environment.Like.mono (le : ρ ≤ ρ') {a b : Environment} (h : a.Like ρ b) : a.Like ρ' b :=
  Forall₂.imp (fun _ _ ⟨name, like⟩ => ⟨name, like.mono le⟩) h

/-- A name is bound on both sides, and to like values, or on neither. -/
theorem Environment.Like.get? {a b : Environment} (h : a.Like ρ b) (name : String) :
    Option.Rel (Value.Like ρ) (a.get? name) (b.get? name) := by
  induction h with
  | nil => exact .none
  | @cons p q a b same _ ih =>
    simp only [Environment.get?, List.find?_cons, same.1] at ih ⊢
    split
    · exact .some same.2
    · exact ih

/-- What values are as things is the same up to a pairing. -/
inductive Identity.Like (ρ : Pairing) : Identity → Identity → Prop
  | fault {x y : FaultRef} (h : ρ.faults x y) : Like ρ (.fault x) (.fault y)
  | same {i : Identity} (h : ∀ x, i ≠ .fault x) : Like ρ i i

namespace Value.Like

variable {v w : Value}

theorem identity (h : v.Like ρ w) : v.identity.Like ρ w.identity := by
  cases h with
  | @plain v h =>
    refine .same fun x => ?_
    cases v with
    | fault => cases h
    | int n stamp =>
      rw [Value.identity]
      split <;> simp
    | str t stamp =>
      rw [Value.identity, Value.textIdentity]
      split
      · simp
      · split <;> simp
      · simp
    | tuple items stamp =>
      rw [Value.identity]
      split <;> simp
    | _ => simp [Value.identity]
  | fault h => exact .fault h
  | outcome h => exact .same (by simp [Value.identity])
  | list stamp h => exact .same (by simp [Value.identity])
  | @tuple vs ws stamp h =>
    have same : vs.isEmpty = ws.isEmpty := by cases h <;> rfl
    rw [Value.identity, Value.identity, same]
    refine .same fun x => ?_
    split <;> simp
  | dict stamp keys values => exact .same (by simp [Value.identity])

theorem isNull (h : v.Like ρ w) : v.isNull = w.isNull := by
  cases h <;> rfl

theorem isCallable (h : v.Like ρ w) : v.isCallable = w.isCallable := by
  cases h <;> rfl

/-- Null is like itself alone. -/
theorem null : Value.null.Like ρ .null :=
  .plain rfl

theorem str (t : String) (stamp : Nat) : (Value.str t stamp).Like ρ (.str t stamp) :=
  .plain rfl

end Value.Like

/-! ## Cells -/

/-- The forms are of the same kind, and their fields hold like values. -/
structure Form.Like (ρ : Pairing) (f g : Form) : Prop where
  kind : f.kind = g.kind
  values : Value.AllLike ρ f.values g.values

/-- The nodes are the same up to a pairing. -/
structure Node.Like (ρ : Pairing) (n m : Node) : Prop where
  form : n.form.Like ρ m.form
  place : n.place.Like ρ m.place
  extras : n.extras.Like ρ m.extras

/-- The faults are the same up to a pairing. -/
structure Fault.Like (ρ : Pairing) (e f : Fault) : Prop where
  kind : e.kind = f.kind
  args : e.args.Like ρ f.args
  chained : e.chained.Like ρ f.chained
  place : e.place.Like ρ f.place
  extras : e.extras.Like ρ f.extras

/-- Both results are values that are like one another, or both raise such values. -/
inductive Result.Like (ρ : Pairing) : Result → Result → Prop
  | success {v w : Value} (h : v.Like ρ w) : Like ρ (.success v) (.success w)
  | raised {v w : Value} (h : v.Like ρ w) : Like ρ (.raised v) (.raised w)

/-- The kept outcomes are the same up to a pairing. -/
structure OutcomeCell.Like (ρ : Pairing) (o p : OutcomeCell) : Prop where
  result : o.result.Like ρ p.result
  extras : o.extras.Like ρ p.extras

/-- The callables are the same up to a pairing. -/
structure Callable.Like (ρ : Pairing) (f g : Callable) : Prop where
  own : f.own = g.own
  routine : f.routine.Like ρ g.routine
  name : f.name.Like ρ g.name
  calls : f.calls.Like ρ g.calls
  extras : f.extras.Like ρ g.extras

/-- The host objects are the same up to a pairing. -/
structure HostObject.Like (ρ : Pairing) (o p : HostObject) : Prop where
  testsTruth : o.testsTruth = p.testsTruth
  hasSize : o.hasSize = p.hasSize
  attributes : o.attributes.Like ρ p.attributes

/-- The tokens are the same up to a pairing. -/
structure Token.Like (ρ : Pairing) (t u : Token) : Prop where
  text : t.text = u.text
  kind : t.kind.Like ρ u.kind
  value : t.value.Like ρ u.value
  marks : t.marks.Like ρ u.marks

/-- The rules are the same up to a pairing. -/
structure Tree.Like (ρ : Pairing) (t u : Tree) : Prop where
  label : t.label.Like ρ u.label
  children : t.children.Like ρ u.children
  extent : t.extent.Like ρ u.extent
  extras : t.extras.Like ρ u.extras

/-- The same callable was invoked with like arguments. -/
structure Invocation.Like (ρ : Pairing) (i j : Invocation) : Prop where
  callee : i.callee = j.callee
  args : Value.AllLike ρ i.args j.args

/-- Like items were added to the same list. -/
structure Addition.Like (ρ : Pairing) (a b : Addition) : Prop where
  stamp : a.stamp = b.stamp
  item : a.item.Like ρ b.item

section Mono

variable (le : ρ ≤ ρ')
include le

theorem Node.Like.mono {n m : Node} (h : n.Like ρ m) : n.Like ρ' m :=
  ⟨⟨h.form.kind, h.form.values.mono le⟩, h.place.mono le, h.extras.mono le⟩

theorem Fault.Like.mono {e f : Fault} (h : e.Like ρ f) : e.Like ρ' f :=
  ⟨h.kind, h.args.mono le, h.chained.mono le, h.place.mono le, h.extras.mono le⟩

theorem Result.Like.mono {r q : Result} (h : r.Like ρ q) : r.Like ρ' q := by
  cases h with
  | success like => exact .success (like.mono le)
  | raised like => exact .raised (like.mono le)

theorem OutcomeCell.Like.mono {o p : OutcomeCell} (h : o.Like ρ p) : o.Like ρ' p :=
  ⟨h.result.mono le, h.extras.mono le⟩

theorem Callable.Like.mono {f g : Callable} (h : f.Like ρ g) : f.Like ρ' g :=
  ⟨h.own, h.routine.mono le, h.name.mono le, h.calls.mono le, h.extras.mono le⟩

theorem HostObject.Like.mono {o p : HostObject} (h : o.Like ρ p) : o.Like ρ' p :=
  ⟨h.testsTruth, h.hasSize, h.attributes.mono le⟩

theorem Token.Like.mono {t u : Token} (h : t.Like ρ u) : t.Like ρ' u :=
  ⟨h.text, h.kind.mono le, h.value.mono le, h.marks.mono le⟩

theorem Tree.Like.mono {t u : Tree} (h : t.Like ρ u) : t.Like ρ' u :=
  ⟨h.label.mono le, h.children.mono le, h.extent.mono le, h.extras.mono le⟩

theorem Invocation.Like.mono {i j : Invocation} (h : i.Like ρ j) : i.Like ρ' j :=
  ⟨h.callee, h.args.mono le⟩

theorem Addition.Like.mono {a b : Addition} (h : a.Like ρ b) : a.Like ρ' b :=
  ⟨h.stamp, h.item.mono le⟩

end Mono

/-! ## Stores -/

namespace Store

/-- Everything in the two stores but faults and outcomes is the same up to a pairing. -/
structure RestLike (ρ : Pairing) (s t : Store) : Prop where
  node (n : NodeRef) : (s.node n).Like ρ (t.node n)
  callables : Forall₂ (Callable.Like ρ) s.callables.toList t.callables.toList
  object (o : ObjectRef) : (s.object o).Like ρ (t.object o)
  token (r : TokenRef) : (s.token r).Like ρ (t.token r)
  tree (r : TreeRef) : (s.tree r).Like ρ (t.tree r)
  extent (x : ExtentRef) : (s.extent x).Like ρ (t.extent x)
  position (p : PositionRef) : (s.position p).Like ρ (t.position p)
  invocations : Forall₂ (Invocation.Like ρ) s.invocations.toList t.invocations.toList
  additions : Forall₂ (Addition.Like ρ) s.additions.toList t.additions.toList
  stamps : s.nextStamp = t.nextStamp
  interpreter : s.interpreter = t.interpreter

/-- The faults of two stores are the same up to a pairing: those that belong together were made and
are like one another, no two belong to the same one, and a hidden one belongs to none. -/
structure FaultsLike (ρ : Pairing) (s t : Store) : Prop where
  made {x y : FaultRef} (h : ρ.faults x y) : x.index < s.faults.size ∧ y.index < t.faults.size
  like {x y : FaultRef} (h : ρ.faults x y) : (s.fault x).Like ρ (t.fault y)
  unique {x y x' y' : FaultRef} (h : ρ.faults x y) (h' : ρ.faults x' y') : x = x' ↔ y = y'
  hidden {x : FaultRef} (h : ρ.hidden x) : x.index < s.faults.size ∧ ∀ y, ¬ρ.faults x y
  hidden' {y : FaultRef} (h : ρ.hidden' y) : y.index < t.faults.size ∧ ∀ x, ¬ρ.faults x y

/-- There are as many outcomes in the two stores, and those that count are the same up to a
pairing. -/
structure OutcomesLike (ρ : Pairing) (s t : Store) : Prop where
  size : s.outcomes.size = t.outcomes.size
  made {o : OutcomeRef} (h : ρ.outcomes o) : o.index < s.outcomes.size
  like {o : OutcomeRef} (h : ρ.outcomes o) : (s.outcome o).Like ρ (t.outcome o)

/-- The stores are the same up to a pairing. -/
structure Like (ρ : Pairing) (s t : Store) : Prop where
  rest : s.RestLike ρ t
  faults : s.FaultsLike ρ t
  outcomes : s.OutcomesLike ρ t

theorem RestLike.mono (le : ρ ≤ ρ') {s t : Store} (h : s.RestLike ρ t) : s.RestLike ρ' t :=
  ⟨fun n => (h.node n).mono le, h.callables.imp fun _ _ like => like.mono le,
    fun o => (h.object o).mono le, fun r => (h.token r).mono le, fun r => (h.tree r).mono le,
    fun x => (h.extent x).mono le, fun p => (h.position p).mono le,
    h.invocations.imp fun _ _ like => like.mono le, h.additions.imp fun _ _ like => like.mono le,
    h.stamps, h.interpreter⟩

/-- Things that are the same up to a pairing are one and the same on both sides or on neither. -/
theorem FaultsLike.identity_iff {s t : Store} (h : s.FaultsLike ρ t) {i j i' j' : Identity}
    (first : i.Like ρ j) (second : i'.Like ρ j') : i = i' ↔ j = j' := by
  cases first with
  | fault paired =>
    cases second with
    | fault paired' => simpa using h.unique paired paired'
    | same other =>
      exact ⟨fun same => absurd same.symm (other _), fun same => absurd same.symm (other _)⟩
  | same other =>
    cases second with
    | fault paired' => exact ⟨fun same => absurd same (other _), fun same => absurd same (other _)⟩
    | same other' => rfl

/-- A store is like itself if its cells are. -/
theorem RestLike.like_identity {s : Store} (rest : s.RestLike (.identity s) s)
    (faults : ∀ x, x.index < s.faults.size → (s.fault x).Like (.identity s) (s.fault x))
    (outcomes : ∀ o, o.index < s.outcomes.size → (s.outcome o).Like (.identity s) (s.outcome o)) :
    s.Like (.identity s) s where
  rest := rest
  faults := by
    refine ⟨?_, ?_, ?_, False.elim, False.elim⟩
    · rintro x y ⟨rfl, made⟩
      exact ⟨made, made⟩
    · rintro x y ⟨rfl, made⟩
      exact faults x made
    · rintro x y x' y' ⟨rfl, -⟩ ⟨rfl, -⟩
      rfl
  outcomes := ⟨rfl, id, fun {o} made => outcomes o made⟩

end Store

end Fallback
