import Fallback.Equality

/-!
Comparisons and their depth.

A comparison that runs out of depth ends with `Misuse.tooDeep`. A greater depth keeps every other
answer: `Refines x y` says that `y` is the answer of a comparison that was given more depth than the
one that answered `x`. Each way of putting comparisons together has its law, and from these follow
`Store.equal_mono` and `Store.equivalent_mono` by induction on the depth.
-/
namespace Fallback

/-- The first comparison ran out of depth, or the second gives the same answer. -/
def Refines {α : Type} (x y : Except Misuse α) : Prop :=
  x = .error .tooDeep ∨ y = x

/-- One relation refines another one on all values. -/
def RefinesAll (r q : Value → Value → Compared) : Prop :=
  ∀ a b, Refines (r a b) (q a b)

namespace Refines

variable {α β : Type} {x y : Except Misuse α}

theorem rfl : Refines x x :=
  .inr (Eq.refl _)

theorem of_tooDeep : Refines (.error .tooDeep) x :=
  .inl (Eq.refl _)

/-- An answer is kept. -/
theorem eq_ok {a : α} (h : Refines x y) (answered : x = .ok a) : y = .ok a := by
  obtain broken | same := h
  · rw [broken] at answered
    cases answered
  · rw [same, answered]

theorem bind {f g : α → Except Misuse β} (h : Refines x y) (k : ∀ a, Refines (f a) (g a)) :
    Refines (x >>= f) (y >>= g) := by
  obtain broken | rfl := h
  · exact .inl (by rw [broken]; exact (Eq.refl _))
  · cases y with
    | error m => exact .inr (Eq.refl _)
    | ok a => exact k a

theorem ite {p : Prop} [Decidable p] {x' y' : Except Misuse α} (h : Refines x y)
    (k : Refines x' y') : Refines (if p then x else x') (if p then y else y') := by
  split
  · exact h
  · exact k

end Refines

section Combinators

variable {r q : Value → Value → Compared}

theorem refines_bothHold {x x' : Compared} {y y' : Unit → Compared} (h : Refines x x')
    (k : Refines (y ()) (y' ())) : Refines (bothHold x y) (bothHold x' y') :=
  h.bind fun _ => Refines.ite k .rfl

theorem refines_sameOr (h : RefinesAll r q) : RefinesAll (sameOr r) (sameOr q) :=
  fun a b => Refines.ite .rfl (h a b)

theorem refines_asKeys (h : RefinesAll r q) : RefinesAll (asKeys r) (asKeys q) :=
  fun a b => Refines.ite (h a b) .rfl

theorem refines_relatedItems (h : RefinesAll r q) :
    ∀ as bs, Refines (relatedItems r as bs) (relatedItems q as bs)
  | [], [] => .rfl
  | [], _ :: _ => .rfl
  | _ :: _, [] => .rfl
  | a :: as, b :: bs => refines_bothHold (h a b) (refines_relatedItems h as bs)

theorem refines_findEntry (h : RefinesAll r q) (key : Value) :
    ∀ entries, Refines (findEntry r key entries) (findEntry q key entries)
  | [] => .rfl
  | entry :: more =>
    (h key entry.1).bind fun _ => Refines.ite .rfl (refines_findEntry h key more)

theorem refines_relatedEntries (h : RefinesAll r q) :
    ∀ as bs, Refines (relatedEntries r as bs) (relatedEntries q as bs)
  | [], _ => .rfl
  | entry :: more, others =>
    (refines_findEntry (refines_asKeys h) entry.1 others).bind fun found => by
      cases found with
      | none => exact .rfl
      | some v => exact refines_bothHold (h entry.2 v) (refines_relatedEntries h more others)

theorem refines_relatedAttributes (h : RefinesAll r q) :
    ∀ as bs, Refines (relatedAttributes r as bs) (relatedAttributes q as bs)
  | [], _ => .rfl
  | a :: more, others => by
    unfold relatedAttributes
    cases Environment.get? others a.1 with
    | none => exact .rfl
    | some v => exact refines_bothHold (h a.2 v) (refines_relatedAttributes h more others)

theorem refines_withoutAttribute {x y : Compared} (h : Refines x y) :
    Refines (withoutAttribute x) (withoutAttribute y) := by
  obtain rfl | rfl := h
  · exact .of_tooDeep
  · exact .rfl

end Combinators

namespace Store

/-- What one more level of depth keeps. -/
structure Deepens (s : Store) (depth : Nat) : Prop where
  equal : RefinesAll (s.equal depth) (s.equal (depth + 1))
  equalTree : ∀ t w, Refines (s.equalTree depth t w) (s.equalTree (depth + 1) t w)
  equivalent : RefinesAll (s.equivalent depth) (s.equivalent (depth + 1))

variable {s : Store} {depth : Nat}

theorem refines_equalTree (h : s.Deepens depth) (t : TreeRef) (w : Value) :
    Refines (s.equalTree (depth + 1) t w) (s.equalTree (depth + 2) t w) := by
  rw [equalTree, equalTree]
  cases s.attribute? w labelName with
  | none => exact .rfl
  | some label =>
    refine refines_withoutAttribute (refines_bothHold (h.equal _ _) ?_)
    cases s.attribute? w childrenName with
    | none => exact .rfl
    | some children => exact h.equal _ _

theorem refines_equivalent (h : s.Deepens depth) (v w : Value) :
    Refines (s.equivalent (depth + 1) v w) (s.equivalent (depth + 2) v w) := by
  unfold equivalent
  refine Refines.ite .rfl (Refines.ite .rfl (Refines.ite .rfl ?_))
  refine Refines.bind .rfl fun a => Refines.bind .rfl fun b => ?_
  dsimp only
  split
  all_goals
    refine Refines.bind (by first | exact .rfl | exact h.equal a b) fun agree =>
      Refines.ite ?_ .rfl
    split
    · split
      · exact h.equivalent _ _
      · exact .rfl
    · exact .rfl

theorem refines_equal (below : ∀ k ≤ depth, s.Deepens k) (v w : Value) :
    Refines (s.equal (depth + 1) v w) (s.equal (depth + 2) v w) := by
  have h := below depth (Nat.le_refl _)
  have part := refines_sameOr h.equal
  unfold equal
  split
  · exact h.equalTree _ _
  · exact h.equalTree _ _
  · exact refines_relatedItems part _ _
  · exact Refines.ite (refines_relatedEntries part _ _) .rfl
  · exact Refines.ite (refines_relatedAttributes part _ _) .rfl
  · next a b =>
    -- the fields of a node are three levels further down
    match depth with
    | 0 | 1 => exact .of_tooDeep
    | fields + 2 =>
      have deeper := refines_sameOr (below fields (by omega)).equal
      exact Refines.ite (refines_relatedItems deeper _ _) .rfl
  · next a b =>
    match depth with
    | 0 => exact .of_tooDeep
    | result + 1 =>
      have deeper := below result (by omega)
      cases (s.outcome a).result with
      | success x =>
        cases (s.outcome b).result with
        | success y => exact refines_sameOr deeper.equal x y
        | raised y => exact .rfl
      | raised x =>
        cases (s.outcome b).result with
        | success y => exact .rfl
        | raised y => exact deeper.equivalent x y
  · exact refines_bothHold (h.equal _ _) .rfl
  · next a b _ _ _ _ _ _ _ _ =>
    cases s.listItems? v with
    | none => exact .rfl
    | some as =>
      cases s.listItems? w with
      | none => exact .rfl
      | some bs => exact Refines.ite (refines_relatedItems part as bs) .rfl

theorem deepens (s : Store) (depth : Nat) : s.Deepens depth := by
  induction depth using Nat.strongRecOn with
  | ind depth ih =>
    match depth with
    | 0 => exact ⟨fun _ _ => .of_tooDeep, fun _ _ => .of_tooDeep, fun _ _ => .of_tooDeep⟩
    | depth + 1 =>
      have h := ih depth (Nat.lt_succ_self _)
      exact ⟨refines_equal fun k le => ih k (Nat.lt_succ_of_le le), refines_equalTree h,
        refines_equivalent h⟩

/-- A greater depth keeps the answer on whether two values are equal. -/
theorem equal_mono {s : Store} {n m : Nat} (le : n ≤ m) {v w : Value} {b : Bool}
    (h : s.equal n v w = .ok b) : s.equal m v w = .ok b := by
  induction le with
  | refl => exact h
  | step _ ih => exact ((s.deepens _).equal v w).eq_ok ih

/-- A greater depth keeps the answer on whether two faults are equivalent. -/
theorem equivalent_mono {s : Store} {n m : Nat} (le : n ≤ m) {v w : Value} {b : Bool}
    (h : s.equivalent n v w = .ok b) : s.equivalent m v w = .ok b := by
  induction le with
  | refl => exact h
  | step _ ih => exact ((s.deepens _).equivalent v w).eq_ok ih

end Store

/-! ## A thing and itself -/

theorem relatedItems_refl {related : Value → Value → Compared} (h : ∀ v, related v v = .ok true)
    (vs : List Value) : relatedItems related vs vs = .ok true := by
  induction vs with
  | nil => rfl
  | cons v vs ih =>
    rw [relatedItems, h v]
    exact ih

theorem sameOr_self (related : Value → Value → Compared) (v : Value) :
    sameOr related v v = .ok true := by
  rw [sameOr, Value.isSame_refl, if_pos rfl]

namespace Store

variable {s : Store} {y z : FaultRef} {items : List Value} {stamp : Nat}

theorem isSame_node {m n : NodeRef} (other : m ≠ n) :
    (Value.node m).isSame (.node n) = false := by
  simp [Value.isSame, Value.identity, other]

/-- A tuple is equal to itself, whatever its items are. -/
theorem equal_tuple_self (s : Store) (depth : Nat) (items : List Value) (stamp : Nat) :
    s.equal (depth + 1) (.tuple items stamp) (.tuple items stamp) = .ok true := by
  unfold equal
  exact relatedItems_refl (sameOr_self _) items

theorem equivalent_self (s : Store) (depth : Nat) (v : Value) :
    s.equivalent (depth + 1) v v = .ok true := by
  unfold equivalent
  simp only [Value.isSame_refl, if_true]

theorem areEquivalent_self (s : Store) (v : Value) : s.areEquivalent v v = .ok true := by
  rw [areEquivalent, s.interpreter.valueDepth_eq]
  exact s.equivalent_self _ v

/-- Two faults of one kind with the same arguments and the same cause are equivalent, wherever they
are placed. -/
theorem equivalent_of_parts (depth : Nat) (kind : (s.fault z).kind = (s.fault y).kind)
    (same : (s.fault z).args = (s.fault y).args)
    (cause : (s.fault z).cause? = (s.fault y).cause?)
    (args : (s.fault y).args = .tuple items stamp) :
    s.equivalent (depth + 2) (.fault z) (.fault y) = .ok true := by
  have named : s.typeName (.fault z) = s.typeName (.fault y) := by
    rw [typeName, typeName, kind]
  have held : ∀ e : FaultRef, s.attribute? (.fault e) argsName = some (s.fault e).args :=
    fun e => rfl
  unfold equivalent
  simp only [named, held, same, cause, args]
  split
  · rfl
  · have agree : s.equal (depth + 1) (.tuple items stamp) (.tuple items stamp) = .ok true :=
      equal_tuple_self ..
    simp only [Value.isNull, Bool.or_self, Bool.false_eq_true, if_false, ne_eq, not_true, bind,
      Except.bind, agree, if_true]
    split
    · next c d _ first second =>
      obtain rfl : c = d := Option.some.inj (first.symm.trans second)
      exact s.equivalent_self depth c
    · rfl

/-- Two faults of one kind with the same arguments and the same cause are equivalent, wherever they
are placed. -/
theorem areEquivalent_of_parts (kind : (s.fault z).kind = (s.fault y).kind)
    (same : (s.fault z).args = (s.fault y).args)
    (cause : (s.fault z).cause? = (s.fault y).cause?)
    (args : (s.fault y).args = .tuple items stamp) :
    s.areEquivalent (.fault z) (.fault y) = .ok true := by
  rw [areEquivalent, s.interpreter.valueDepth_eq]
  exact equivalent_of_parts _ kind same cause args

/-- Two faults that have everything in common are equivalent. -/
theorem areEquivalent_of_fault_eq (same : s.fault z = s.fault y)
    (args : (s.fault y).args = .tuple items stamp) :
    s.areEquivalent (.fault z) (.fault y) = .ok true :=
  areEquivalent_of_parts (by rw [same]) (by rw [same]) (by rw [same]) args

end Store

end Fallback
