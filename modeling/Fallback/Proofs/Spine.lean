import Fallback.Proofs.Agreement
import Fallback.Proofs.Comparison
import Fallback.Proofs.Lowering
import Mathlib.Data.List.Nodup
import Mathlib.Data.List.Perm.Subperm

/-!
Chains and their operands.

`Store.Spine` says which operands stand along the right spine of a value, and `Store.operands` finds
just these in a built tree, where the nodes of a spine are pairwise different, so that there are
enough steps for all of them. `Store.Folded` is what folding operands to the right makes: a spine of
new nodes above the last operand. The two laws meet in `Attempt.runOn_chain_and_operands`: what was
folded has the operands it was folded from, except that the spine of the last one is followed
further, and the operands of a chain fold to a copy of it. The copy is equal to the chain as far as
equality can tell: every node of a spine takes three levels of the comparison, so two spines that
are longer than that cannot be compared, although nothing tells them apart.
-/
namespace Fallback

open Relation

variable {op : Operator} {s t : Store} {n : NodeRef} {v w last : Value} {vs front : List Value}

namespace Store

/-! ## The operands along a spine -/

/-- The value is a node of the operator. -/
def Joins (s : Store) (op : Operator) (v : Value) : Prop :=
  ∃ n l r, v = .node n ∧ s.form n = .fallback op l r

/-- The operands along the right spine of a value, as far as it is made of nodes of the operator. -/
inductive Spine (s : Store) (op : Operator) : Value → List Value → Prop
  | last {v : Value} (other : ¬s.Joins op v) : s.Spine op v [v]
  | join {n : NodeRef} {l r : Value} {vs : List Value} (form : s.form n = .fallback op l r)
      (rest : s.Spine op r vs) : s.Spine op (.node n) (l :: vs)

theorem joins_of_form {l r : Value} (form : s.form n = .fallback op l r) : s.Joins op (.node n) :=
  ⟨n, l, r, rfl, form⟩

/-- What is known stays a node of the operator, or none, as it was. -/
theorem Knows.joins_iff (known : s.Knows v) (le : s ≤ t) : t.Joins op v ↔ s.Joins op v := by
  have same {n : NodeRef} (node : v = .node n) : t.form n = s.form n :=
    form_eq_of_le le (known.node node).tree.whole.made
  constructor
  · rintro ⟨n, l, r, rfl, form⟩
    exact ⟨n, l, r, rfl, (same rfl).symm.trans form⟩
  · rintro ⟨n, l, r, rfl, form⟩
    exact ⟨n, l, r, rfl, (same rfl).trans form⟩

/-- The right operand of a node that is known is known, and it is an operand below the node. -/
theorem Knows.right {l r : Value} (known : s.Knows (.node n))
    (form : s.form n = .fallback op l r) : s.Knows r ∧ ∃ m, r = .node m ∧ s.Operand n m := by
  have mem : r ∈ (s.form n).operands := by simp [form, Form.operands]
  obtain ⟨m, rfl⟩ := (known.node rfl).tree.whole.operands r mem
  exact ⟨knows_node ((known.node rfl).operand mem), m, rfl, mem⟩

namespace Spine

theorem mono (h : s.Spine op v vs) (known : s.Knows v) (le : s ≤ t) : t.Spine op v vs := by
  induction h with
  | last other => exact .last fun joins => other ((known.joins_iff le).1 joins)
  | join form _ ih =>
    have made := (known.node rfl).tree.whole.made
    exact .join ((form_eq_of_le le made).trans form) (ih (known.right form).1)

theorem ne_nil (h : s.Spine op v vs) : vs ≠ [] := by
  cases h <;> exact List.cons_ne_nil _ _

/-- A spine ends with an operand that is no node of the operator, and that is not the only one in
the spine of a node of the operator. -/
theorem exists_last (h : s.Spine op v vs) : ∃ front last, vs = front ++ [last] ∧
    ¬s.Joins op last ∧ (s.Joins op v → front ≠ []) := by
  induction h with
  | @last v other => exact ⟨[], v, rfl, other, fun joins => absurd joins other⟩
  | @join n l r vs form _ ih =>
    obtain ⟨front, last, rfl, other, -⟩ := ih
    exact ⟨l :: front, last, rfl, other, fun _ => List.cons_ne_nil _ _⟩

/-- The operands of a chain that is known are nodes. -/
theorem isNode (h : s.Spine op v vs) (known : s.Knows v) (node : v.isNode = true) :
    ∀ w ∈ vs, w.isNode = true := by
  induction h with
  | last =>
    intro w hw
    rwa [List.mem_singleton.1 hw]
  | @join n l r vs form _ ih =>
    obtain ⟨below, m, rfl, -⟩ := known.right form
    have mem : l ∈ (s.form n).operands := by simp [form, Form.operands]
    obtain ⟨k, rfl⟩ := (known.node rfl).tree.whole.operands l mem
    exact List.forall_mem_cons.2 ⟨rfl, ih below rfl⟩

/-- The nodes of a spine are pairwise different, since none is below itself. -/
theorem exists_nodes (h : s.Spine op v vs) (known : s.Knows v) :
    ∃ ns : List NodeRef, vs.length = ns.length + 1 ∧ ns.Nodup ∧ ∀ m ∈ ns,
      m.index < s.nodes.size ∧ ∃ n, v = .node n ∧ ReflTransGen s.Operand n m := by
  induction h with
  | last => exact ⟨[], rfl, List.nodup_nil, nofun⟩
  | @join n l r vs form _ ih =>
    obtain ⟨below, k, rfl, operand⟩ := known.right form
    have built := known.node rfl
    obtain ⟨ns, length, nodup, paths⟩ := ih below
    have lower : ∀ m ∈ ns, TransGen s.Operand n m := by
      intro m hm
      obtain ⟨-, k', same, path⟩ := paths m hm
      cases same
      exact .head' operand path
    refine ⟨n :: ns, by rw [List.length_cons, length, List.length_cons],
      List.nodup_cons.2 ⟨fun mem => built.acyclic (lower n mem), nodup⟩, ?_⟩
    intro m hm
    obtain rfl | hm := List.mem_cons.1 hm
    · exact ⟨built.tree.whole.made, m, rfl, .refl⟩
    · exact ⟨(paths m hm).1, n, rfl, (lower m hm).to_reflTransGen⟩

/-- A spine has at most one operand more than there are nodes. -/
theorem length_le (h : s.Spine op v vs) (known : s.Knows v) : vs.length ≤ s.nodes.size + 1 := by
  obtain ⟨ns, length, nodup, paths⟩ := h.exists_nodes known
  have injective : Function.Injective NodeRef.index := by
    rintro ⟨i⟩ ⟨j⟩ same
    exact congrArg NodeRef.mk same
  have below : ns.map NodeRef.index ⊆ List.range s.nodes.size := by
    intro i hi
    obtain ⟨m, hm, rfl⟩ := List.mem_map.1 hi
    exact List.mem_range.2 (paths m hm).1
  have fewer := (List.Nodup.subperm (List.Nodup.map injective nodup) below).length_le
  rw [List.length_map, List.length_range] at fewer
  omega

/-- With room enough the whole spine is followed. -/
theorem spine_eq (h : s.Spine op v vs) {room : Nat} (enough : vs.length ≤ room + 1) :
    s.spine op room v = vs := by
  induction h generalizing room with
  | @last v other =>
    cases room with
    | zero => rfl
    | succ room =>
      cases v with
      | node n =>
        simp only [spine]
        split
        · next op' l r form =>
          rw [if_neg]
          rintro rfl
          exact other (joins_of_form form)
        · rfl
      | _ => rfl
  | @join n l r vs form rest ih =>
    have some := List.length_pos_iff.2 rest.ne_nil
    rw [List.length_cons] at enough
    obtain ⟨room, rfl⟩ : ∃ k, room = k + 1 := ⟨room - 1, by omega⟩
    rw [spine]
    simp only [form, if_true]
    rw [ih (by omega)]

/-- The operands of a chain are those along its spine. -/
theorem operands_eq (h : s.Spine op (.node n) vs) (joins : s.Joins op (.node n))
    (enough : vs.length ≤ s.nodes.size + 1) : s.operands (.node n) = vs := by
  obtain ⟨_, l, r, same, form⟩ := joins
  cases same
  rw [operands]
  simp only [form]
  exact h.spine_eq enough

end Spine

/-- Every built tree has a spine. -/
theorem IsBuilt.exists_spine (op : Operator) (built : s.IsBuilt n) :
    ∃ vs, s.Spine op (.node n) vs := by
  have founded := built.founded
  induction founded with
  | intro n _ ih =>
    by_cases joins : s.Joins op (.node n)
    · obtain ⟨_, l, r, same, form⟩ := joins
      cases same
      obtain ⟨known, m, rfl, operand⟩ := (knows_node built).right form
      obtain ⟨vs, spine⟩ := ih m operand (known.node rfl)
      exact ⟨l :: vs, .join form spine⟩
    · exact ⟨_, .last joins⟩

/-! ## What folding makes -/

/-- The value is a spine of nodes of the operator with an index not below `bound`, over some
operands and a last value. -/
inductive Folded (s : Store) (op : Operator) (bound : Nat) (last : Value) :
    List Value → Value → Prop
  | nil : s.Folded op bound last [] last
  | cons {n : NodeRef} {v w : Value} {vs : List Value} (bounded : bound ≤ n.index)
      (made : n.index < s.nodes.size) (form : s.form n = .fallback op v w)
      (rest : s.Folded op bound last vs w) : s.Folded op bound last (v :: vs) (.node n)

namespace Folded

variable {bound : Nat}

theorem mono (h : s.Folded op bound last vs w) (le : s ≤ t) : t.Folded op bound last vs w := by
  induction h with
  | nil => exact .nil
  | cons bounded made form _ ih =>
    exact .cons bounded (le.node made).1 ((form_eq_of_le le made).trans form) ih

theorem joins (h : s.Folded op bound last vs w) (some : vs ≠ []) : s.Joins op w := by
  cases h with
  | nil => exact absurd rfl some
  | cons _ _ form _ => exact joins_of_form form

/-- The spine of the last operand continues that of the nodes above it. -/
theorem spine (h : s.Folded op bound last front w) (rest : s.Spine op last vs) :
    s.Spine op w (front ++ vs) := by
  induction h with
  | nil => exact rest
  | cons _ _ form _ ih => exact .join form ih

end Folded

/-! ## Copies of a spine -/

/-- The first value is a copy of a spine with so many nodes: a spine of other nodes of the operator
with the same operands. -/
inductive Copy (s : Store) (op : Operator) : Nat → Value → Value → Prop
  | last (v : Value) : s.Copy op 0 v v
  | join {count : Nat} {m n : NodeRef} {l r r' : Value} (other : m ≠ n)
      (form : s.form m = .fallback op l r') (form' : s.form n = .fallback op l r)
      (rest : s.Copy op count r' r) : s.Copy op (count + 1) (.node m) (.node n)

/-- Folding the operands of a spine by new nodes copies it. -/
theorem Spine.copy (h : s.Spine op v (front ++ [last])) (known : s.Knows v) (le : s ≤ t)
    (folded : t.Folded op s.nodes.size last front w) : t.Copy op front.length w v := by
  generalize operands : front ++ [last] = vs at h
  induction h generalizing front w with
  | last =>
    obtain ⟨rfl, same⟩ := List.append_eq_singleton_iff.1 operands |>.resolve_right (by simp)
    cases same
    cases folded
    exact .last _
  | @join n l r vs form rest ih =>
    cases folded with
    | nil =>
      cases operands
      exact absurd rfl rest.ne_nil
    | cons bounded _ form' folded =>
      cases operands
      have made := (known.node rfl).tree.whole.made
      have other : ∀ {m : NodeRef}, s.nodes.size ≤ m.index → m ≠ n := by
        rintro m far rfl
        exact absurd made (Nat.not_lt_of_le far)
      exact .join (other bounded) form' ((form_eq_of_le le made).trans form)
        (ih (known.right form).1 folded rfl)

/-- A copy of a spine has the same operands. -/
theorem Copy.spine {count : Nat} (h : s.Copy op count w v) (spine : s.Spine op v vs) :
    s.Spine op w vs := by
  induction h generalizing vs with
  | last v => exact spine
  | join _ form form' _ ih =>
    cases spine with
    | last other => exact absurd (joins_of_form form') other
    | join form'' rest =>
      cases form'.symm.trans form''
      exact .join form (ih rest)

/-- A copy is found equal to a spine exactly if the comparison may go deep enough. -/
theorem Copy.sameOr_equal {count : Nat} (h : s.Copy op count v w) (depth : Nat) :
    sameOr (s.equal depth) v w =
      if 3 * count ≤ depth then .ok true else .error .tooDeep := by
  induction h generalizing depth with
  | last v => exact sameOr_self _ v
  | @join count m n l r r' other form form' _ ih =>
    rw [sameOr, isSame_node other, if_neg Bool.false_ne_true]
    rcases depth with _ | _ | _ | depth
    iterate 3
      · rw [if_neg (by omega)]
        rfl
    have deeper : 3 * (count + 1) ≤ depth + 3 ↔ 3 * count ≤ depth := by omega
    simp only [equal, form, form', Form.kind, Form.values, relatedItems, if_true, deeper]
    rw [sameOr_self, ih depth]
    split <;> rfl

theorem Copy.areEqual {count : Nat} {m : NodeRef} (h : s.Copy op count (.node m) (.node n))
    (some : 0 < count) : s.areEqual (.node m) (.node n) =
      if 3 * count ≤ s.interpreter.valueDepth then .ok true else .error .tooDeep := by
  have compared := h.sameOr_equal s.interpreter.valueDepth
  cases h with
  | last => cases some
  | join other => rwa [sameOr, isSame_node other, if_neg Bool.false_ne_true] at compared

end Store

/-! ## Folding -/

namespace Attempt

/-- Nodes folded onto a node give a spine of new nodes, one for each operand. -/
theorem folded_foldOnto {place : Value} (nodes : ∀ v ∈ front, v.isNode = true)
    (final : last.isNode = true) :
    ∃ w t, (foldOnto (fun lhs rhs => fallback op lhs rhs place) last front).runOn s = (.ok w, t) ∧
      s.Grows t ∧ t.nodes.size = s.nodes.size + front.length ∧ w.isNode = true ∧
      t.Folded op s.nodes.size last front w := by
  induction front with
  | nil => exact ⟨last, s, rfl, .refl s, rfl, final, .nil⟩
  | cons v front ih =>
    obtain ⟨first, others⟩ := List.forall_mem_cons.1 nodes
    obtain ⟨w, t, runs, grows, size, node, folded⟩ := ih others
    let cell : Node := ⟨.fallback op v w, place, []⟩
    have made : (fallback op v w place).runOn t = (.ok (t.addNode cell).1, (t.addNode cell).2) := by
      have both : ∀ u ∈ [v, w], u.isNode = true :=
        List.forall_mem_cons.2 ⟨first, List.forall_mem_singleton.2 node⟩
      rw [fallback, Work.runOn_bind_ok (runOn_requireNodes both (.fallback op) place t)]
      rfl
    have more := Store.Grows.addNode t cell
    have size' : (t.addNode cell).2.nodes.size = t.nodes.size + 1 := Array.size_push _
    refine ⟨.node (t.addNode cell).1, _, ?_, grows.trans more, ?_, rfl,
      .cons ?_ ?_ ?_ (folded.mono more.le)⟩
    · rw [foldOnto, Work.runOn_bind_ok runs, Work.runOn_bind_ok made]
      rfl
    · rw [size', size, List.length_cons]
      omega
    · show s.nodes.size ≤ t.nodes.size
      omega
    · show t.nodes.size < _
      omega
    · exact congrArg Node.form (t.node_addNode_self cell)

/-- Operands that are not all nodes are refused. -/
theorem follows_requireOperands {kind : NodeKind} {place : Value}
    (some : ¬∀ v ∈ vs, v.isNode = true) :
    Follows s (requireOperands kind place vs) (.error .malformed) fun _ (_ : Unit) _ => True := by
  induction vs with
  | nil => exact absurd nofun some
  | cons v vs ih =>
    rw [requireOperands]
    split
    · next node => exact ih fun all => some (List.forall_mem_cons.2 ⟨node, all⟩)
    · have named : (typeName v).runOn s = (.ok (s.typeName v), s) := rfl
      exact .after named (.refl s) (follows_malformed _ _)

/-- Two or more nodes fold to a node, the first of a spine of new nodes over the others. -/
theorem folded_chain (op : Operator) (place : Value) (some : front ≠ [])
    (nodes : ∀ v ∈ front ++ [last], v.isNode = true) :
    ∃ n t, (chain op (front ++ [last]) place).runOn s = (.ok (.node n), t) ∧ s.Grows t ∧
      t.nodes.size = s.nodes.size + front.length ∧
      t.Folded op s.nodes.size last front (.node n) := by
  have earlier : ∀ v ∈ front, v.isNode = true := fun v h => nodes v (List.mem_append_left _ h)
  have final : last.isNode = true := nodes last (by simp)
  obtain ⟨w, t, runs, grows, size, node, folded⟩ := folded_foldOnto earlier final
  have positive := List.length_pos_iff.2 some
  have two : ¬(front ++ [last]).length < 2 := by
    rw [List.length_append, List.length_singleton]
    omega
  cases w with
  | node n =>
    refine ⟨n, t, ?_, grows, size, folded⟩
    rw [chain, foldRight, List.getLast?_concat]
    simp only [two, if_false]
    rw [Work.runOn_bind_ok (runOn_requireOperands nodes (.fallback op) place s),
      List.dropLast_concat]
    exact runs
  | _ => cases node

/-- Fewer than two operands, and operands that are not all nodes, are refused. -/
theorem follows_chain_of_not (op : Operator) (place : Value)
    (unfit : ¬(2 ≤ vs.length ∧ ∀ v ∈ vs, v.isNode = true)) :
    Follows s (chain op vs place) (.error .malformed) fun _ (_ : Unit) _ => True := by
  rw [chain, foldRight]
  split
  · split
    · exact follows_malformed _ _
    · next few =>
      have some : ¬∀ v ∈ vs, v.isNode = true := fun all => unfit ⟨Nat.le_of_not_lt few, all⟩
      exact Follows.refuse (follows_requireOperands some)
  · exact follows_malformed _ _

/-- Whatever folds is two or more nodes. -/
theorem folded_of_runOn_chain {place : Value}
    (runs : (chain op (front ++ [last]) place).runOn s = (.ok w, t)) :
    front ≠ [] ∧ s ≤ t ∧ t.nodes.size = s.nodes.size + front.length ∧
      t.Folded op s.nodes.size last front w := by
  by_cases fit : 2 ≤ (front ++ [last]).length ∧ ∀ v ∈ front ++ [last], v.isNode = true
  · have some : front ≠ [] := by
      rintro rfl
      exact absurd fit.1 (by simp)
    obtain ⟨n, t', runs', grows, size, folded⟩ := folded_chain op place some fit.2
    rw [runs] at runs'
    cases runs'
    exact ⟨some, grows.le, size, folded⟩
  · obtain ⟨e, t', runs', -⟩ := follows_chain_of_not (s := s) op place fit
    rw [runs] at runs'
    cases runs'

/-- What was folded has the operands it was folded from, the spine of the last one followed
further. -/
theorem operands_of_runOn_chain {place : Value} (known : s.Knows last)
    (runs : (chain op (front ++ [last]) place).runOn s = (.ok (.node n), t)) :
    (s.Joins op last → t.operands (.node n) = front ++ s.operands last) ∧
      (¬s.Joins op last → t.operands (.node n) = front ++ [last]) := by
  obtain ⟨some, le, size, folded⟩ := folded_of_runOn_chain runs
  have found {vs : List Value} (spine : s.Spine op last vs) :
      t.operands (.node n) = front ++ vs := by
    have bound := spine.length_le known
    refine (folded.spine (spine.mono known le)).operands_eq (folded.joins some) ?_
    rw [List.length_append, size]
    omega
  refine ⟨fun joins => ?_, fun other => found (.last other)⟩
  obtain ⟨m, l, r, rfl, form⟩ := joins
  obtain ⟨vs, spine⟩ := (known.node rfl).exists_spine op
  rw [spine.operands_eq (Store.joins_of_form form) (spine.length_le known)]
  exact found spine

/-- The operands of a chain fold to a copy of it. -/
theorem exists_copy (place : Value) (built : s.IsBuilt n) (joins : s.Joins op (.node n)) :
    ∃ front last, s.operands (.node n) = front ++ [last] ∧ front ≠ [] ∧ ¬s.Joins op last ∧
      ∃ m t, (chain op (front ++ [last]) place).runOn s = (.ok (.node m), t) ∧ s.Grows t ∧
        t.operands (.node m) = front ++ [last] ∧ t.Copy op front.length (.node m) (.node n) := by
  have known := Store.knows_node built
  obtain ⟨vs, spine⟩ := built.exists_spine op
  have bound := spine.length_le known
  have operands := spine.operands_eq joins bound
  obtain ⟨front, last, rfl, other, some⟩ := spine.exists_last
  obtain ⟨m, t, runs, grows, size, folded⟩ :=
    folded_chain op place (some joins) (spine.isNode known rfl)
  have copy := spine.copy known grows.le folded
  refine ⟨front, last, operands, some joins, other, m, t, runs, grows, ?_, copy⟩
  refine (copy.spine (spine.mono known grows.le)).operands_eq (folded.joins (some joins)) ?_
  omega

/-- Folding and finding the operands undo each other. For each operator, two or more nodes fold to a
node and anything else is refused as a broken tree. What was folded has the operands it was folded
from, with the last one replaced by its own operands if it is a node of the operator itself. Every
chain has two or more operands, the last of which is no node of the operator, and they fold to a
chain of these very operands; comparing it with the first one says that they are equal, unless the
chain is too long to be compared at all. -/
theorem runOn_chain_and_operands (s : Store) (op : Operator) (place : Value) :
    (∀ vs, 2 ≤ vs.length ∧ (∀ v ∈ vs, v.isNode = true) →
      ∃ n t, (chain op vs place).runOn s = (.ok (.node n), t) ∧ s ≤ t) ∧
    (∀ vs, ¬(2 ≤ vs.length ∧ ∀ v ∈ vs, v.isNode = true) →
      ∃ e t, (chain op vs place).runOn s = (.error e, t) ∧ e.index < t.faults.size ∧
        (t.fault e).kind = .malformed) ∧
    (∀ front last n t, s.Knows last →
      (chain op (front ++ [last]) place).runOn s = (.ok (.node n), t) →
      (s.Joins op last → t.operands (.node n) = front ++ s.operands last) ∧
        (¬s.Joins op last → t.operands (.node n) = front ++ [last])) ∧
    ∀ n, s.IsBuilt n → s.Joins op (.node n) → ∃ front last,
      s.operands (.node n) = front ++ [last] ∧ front ≠ [] ∧ ¬s.Joins op last ∧
      ∃ m t, (chain op (front ++ [last]) place).runOn s = (.ok (.node m), t) ∧ s ≤ t ∧
        t.operands (.node m) = front ++ [last] ∧
        t.areEqual (.node m) (.node n) =
          if 3 * front.length ≤ s.interpreter.valueDepth then .ok true else .error .tooDeep := by
  refine ⟨fun vs fit => ?_, fun vs unfit => ?_, fun front last n t => operands_of_runOn_chain,
    fun n built joins => ?_⟩
  · obtain rfl | ⟨front, last, rfl⟩ := List.eq_nil_or_concat vs
    · exact absurd fit.1 (by decide)
    · rw [List.concat_eq_append] at fit ⊢
      have some : front ≠ [] := by
        rintro rfl
        exact absurd fit.1 (by simp)
      obtain ⟨n, t, runs, grows, -⟩ := folded_chain (s := s) op place some fit.2
      exact ⟨n, t, runs, grows.le⟩
  · obtain ⟨e, t, runs, -, there, kind⟩ :=
      follows_chain_of_not (s := s) op place unfit
    exact ⟨e, t, runs, there, kind⟩
  · obtain ⟨front, last, operands, some, other, m, t, runs, grows, again, copy⟩ :=
      exists_copy place built joins
    refine ⟨front, last, operands, some, other, m, t, runs, grows.le, again, ?_⟩
    rw [copy.areEqual (List.length_pos_iff.2 some), grows.interpreter]

end Attempt

/-- The store with null and so many nodes of an operator, one on top of the other: null is the left
operand of all of them and the right operand of the lowest. -/
def Store.tower : Nat → Store
  | 0 => (Store.empty.addNode ⟨.literal .null, .null, []⟩).2
  | count + 1 =>
    ((tower count).addNode ⟨.fallback .onNull (.node ⟨0⟩) (.node ⟨count⟩), .null, []⟩).2

theorem Store.size_tower (count : Nat) : (tower count).nodes.size = count + 1 := by
  induction count with
  | zero => rfl
  | succ count ih =>
    rw [tower]
    exact (Array.size_push _).trans (congrArg (· + 1) ih)

theorem Store.interpreter_tower (count : Nat) : (tower count).interpreter = .standard := by
  induction count with
  | zero => rfl
  | succ count ih => exact ih

theorem Store.form_tower (count : Nat) :
    (tower (count + 1)).form ⟨count + 1⟩ = .fallback .onNull (.node ⟨0⟩) (.node ⟨count⟩) := by
  have self := (tower count).node_addNode_self
    ⟨.fallback .onNull (.node ⟨0⟩) (.node ⟨count⟩), .null, []⟩
  have top : ((tower count).addNode ⟨.fallback .onNull (.node ⟨0⟩) (.node ⟨count⟩), .null, []⟩).1 =
      ⟨count + 1⟩ := congrArg NodeRef.mk (size_tower count)
  rw [top] at self
  exact congrArg Node.form self

theorem Store.isBuilt_tower (count : Nat) : ∀ k ≤ count, (tower count).IsBuilt ⟨k⟩ := by
  induction count with
  | zero =>
    intro k le
    obtain rfl := Nat.le_zero.1 le
    have made : (Attempt.node (.literal .null) .null).runOn .empty = (.ok ⟨0⟩, tower 0) := rfl
    have free : ∀ v ∈ (Form.literal .null).values, Store.empty.Knows v := knows_all rfl
    exact (Attempt.isBuilt_of_node free nofun made).2
  | succ count ih =>
    intro k le
    have made : (Attempt.fallback .onNull (.node ⟨0⟩) (.node ⟨count⟩) .null).runOn (tower count) =
        (.ok ⟨(tower count).nodes.size⟩, tower (count + 1)) := rfl
    obtain ⟨lasts, built⟩ :=
      Attempt.isBuilt_of_fallback (ih 0 (Nat.zero_le _)) (ih count (le_refl _)) made
    obtain less | rfl := Nat.lt_or_eq_of_le le
    · exact (ih k (Nat.le_of_lt_succ less)).mono lasts
    · rwa [size_tower] at built

theorem Store.joins_tower (count : Nat) :
    (tower (count + 1)).Joins .onNull (.node ⟨count + 1⟩) :=
  joins_of_form (form_tower count)

/-- Null is all that stands along the spine of a tower. -/
theorem Store.spine_tower (count : Nat) :
    (tower count).Spine .onNull (.node ⟨count⟩) (.replicate (count + 1) (.node ⟨0⟩)) := by
  induction count with
  | zero =>
    refine .last ?_
    rintro ⟨n, l, r, same, form⟩
    cases same
    cases form
  | succ count ih =>
    have known := knows_node (isBuilt_tower count count (le_refl _))
    exact .join (form_tower count) (ih.mono known ((tower count).le_addNode _))

theorem Store.operands_tower (count : Nat) :
    (tower (count + 1)).operands (.node ⟨count + 1⟩) = .replicate (count + 2) (.node ⟨0⟩) := by
  refine (spine_tower (count + 1)).operands_eq (joins_tower count) ?_
  rw [List.length_replicate, size_tower]
  exact Nat.le_succ _

/-- A null in front of a chain of three folds to a chain of four, and the operands of the chain of
three fold to a chain that is equal to it. -/
theorem runOn_chain_and_operands_of_tower :
    let s := Store.tower 2
    s.Knows (.node ⟨2⟩) ∧ s.Joins .onNull (.node ⟨2⟩) ∧ s.IsBuilt ⟨2⟩ ∧
    (∃ n t, (Attempt.chain .onNull [.node ⟨0⟩, .node ⟨2⟩] .null).runOn s = (.ok (.node n), t) ∧
      t.operands (.node n) = [.node ⟨0⟩, .node ⟨0⟩, .node ⟨0⟩, .node ⟨0⟩]) ∧
    ∃ m t, (Attempt.chain .onNull (s.operands (.node ⟨2⟩)) .null).runOn s = (.ok (.node m), t) ∧
      t.operands (.node m) = s.operands (.node ⟨2⟩) ∧
      t.areEqual (.node m) (.node ⟨2⟩) = .ok true := by
  intro s
  have built : s.IsBuilt ⟨2⟩ := Store.isBuilt_tower 2 2 (le_refl _)
  have known := Store.knows_node built
  have joins := Store.joins_tower 1
  obtain ⟨folds, -, operands, copies⟩ := Attempt.runOn_chain_and_operands s .onNull .null
  obtain ⟨n, t, runs, -⟩ := folds [.node ⟨0⟩, .node ⟨2⟩] (by decide)
  obtain ⟨front, last, split, -, -, m, u, runs', -, again, equal⟩ := copies ⟨2⟩ built joins
  have length := congrArg List.length ((Store.operands_tower 1).symm.trans split)
  rw [List.length_replicate, List.length_append, List.length_singleton] at length
  refine ⟨known, joins, built, ⟨n, t, runs, ?_⟩, m, u, ?_, ?_, ?_⟩
  · rw [(operands [.node ⟨0⟩] (.node ⟨2⟩) n t known runs).1 joins, Store.operands_tower 1]
    rfl
  · rw [split]
    exact runs'
  · rw [split]
    exact again
  · have deep : 3 * front.length ≤ Interpreter.standard.valueDepth := by
      rw [Interpreter.valueDepth_eq]
      omega
    rw [equal, Store.interpreter_tower, if_pos deep]

/-- The operands of a long chain fold to a chain of the same operands, but comparing the two goes
too deep. -/
theorem tooDeep_of_tower :
    let s := Store.tower 599
    s.IsBuilt ⟨599⟩ ∧ s.Joins .onNull (.node ⟨599⟩) ∧
    ∃ m t, (Attempt.chain .onNull (s.operands (.node ⟨599⟩)) .null).runOn s = (.ok (.node m), t) ∧
      t.operands (.node m) = s.operands (.node ⟨599⟩) ∧
      t.areEqual (.node m) (.node ⟨599⟩) = .error .tooDeep := by
  intro s
  have built : s.IsBuilt ⟨599⟩ := Store.isBuilt_tower 599 599 (le_refl _)
  have joins := Store.joins_tower 598
  obtain ⟨front, last, split, some, -, m, t, runs, grows, again, copy⟩ :=
    Attempt.exists_copy .null built joins
  have length := congrArg List.length ((Store.operands_tower 598).symm.trans split)
  rw [List.length_replicate, List.length_append, List.length_singleton] at length
  refine ⟨built, joins, m, t, ?_, ?_, ?_⟩
  · rw [split]
    exact runs
  · rw [split]
    exact again
  · have deep : ¬3 * front.length ≤ Interpreter.standard.valueDepth := by
      show ¬3 * front.length ≤ 990
      omega
    rw [copy.areEqual (List.length_pos_iff.2 some), grows.interpreter, Store.interpreter_tower,
      if_neg deep]

end Fallback
