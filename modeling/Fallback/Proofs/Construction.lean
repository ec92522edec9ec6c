import Fallback.Chain
import Fallback.Proofs.Tree

/-!
Trees as the constructors build them.

`Store.IsBuilt` says of a node that it is a tree and that no path down from it goes on for ever; a
node may still stand in many places. Every constructor checks what it is given, so a node that it
makes out of built trees is itself a built tree, and all that was made before lasts:
`isBuilt_of_node`. Only an assignment to a field can spoil this.
-/
namespace Fallback

/-- The value refers to something that was made. -/
def Value.isMade : Value → Bool
  | .node _ | .token _ | .fault _ => true
  | _ => false

namespace Store

/-- A tree below which every path comes to an end. -/
structure IsBuilt (s : Store) (n : NodeRef) : Prop where
  tree : s.IsTree n
  founded : Acc (fun m k => s.Operand k m) n

/-- What was built stays built. -/
theorem IsBuilt.mono {s t : Store} (h : s ≤ t) {n : NodeRef} (hn : s.IsBuilt n) : t.IsBuilt n := by
  obtain ⟨tree, founded⟩ := hn
  refine ⟨tree.mono h, ?_⟩
  induction founded with
  | intro k _ ih =>
    refine .intro k fun m operand => ?_
    rw [Operand, form_eq_of_le h tree.whole.made] at operand
    exact ih m operand (tree.operand operand)

/-- What a value refers to was made: a node is a built tree, and a token or a fault is there. -/
structure Knows (s : Store) (v : Value) : Prop where
  node {m : NodeRef} (h : v = .node m) : s.IsBuilt m
  token {r : TokenRef} (h : v = .token r) : r.index < s.tokens.size
  fault {e : FaultRef} (h : v = .fault e) : e.index < s.faults.size

theorem Knows.mono {s t : Store} (h : s ≤ t) {v : Value} (hv : s.Knows v) : t.Knows v :=
  ⟨fun e => (hv.node e).mono h, fun e => (h.text (hv.token e)).1, fun e => (h.kind (hv.fault e)).1⟩

theorem knows_node {s : Store} {m : NodeRef} (built : s.IsBuilt m) : s.Knows (.node m) := by
  refine ⟨fun same => ?_, fun same => ?_, fun same => ?_⟩
  · cases same
    exact built
  · cases same
  · cases same

theorem knows_fault {s : Store} {e : FaultRef} (made : e.index < s.faults.size) :
    s.Knows (.fault e) := by
  refine ⟨fun same => ?_, fun same => ?_, fun same => ?_⟩
  · cases same
  · cases same
  · cases same
    exact made

/-- Nothing has to be known of what refers to nothing. -/
theorem knows_all {s : Store} {vs : List Value} (free : vs.all (!·.isMade) = true) :
    ∀ v ∈ vs, s.Knows v := by
  intro v hv
  have unmade : v.isMade = false := by simpa using List.all_eq_true.1 free v hv
  refine ⟨fun same => ?_, fun same => ?_, fun same => ?_⟩ <;>
  · subst same
    cases unmade

theorem le_addNode (s : Store) (n : Node) : s ≤ (s.addNode n).2 := by
  refine ⟨fun {r} hr => ⟨?_, node_addNode_of_lt n hr⟩, fun hr => ⟨hr, rfl⟩, fun hr => ⟨hr, rfl⟩⟩
  show r.index < (s.nodes.push n).size
  rw [Array.size_push]
  exact Nat.lt_succ_of_lt hr

end Store

namespace Attempt

variable {s t : Store}

/-- Nothing but changes is made by an attempt that ends well, so what lasts has lasted. -/
theorem le_of_makes {α : Type} {x : Attempt α} (hx : x.Makes Store.Change) {a : α}
    (h : x.runOn s = (.ok a, t)) : s ≤ t := by
  have changes := hx.of_run h
  clear h
  induction changes with
  | refl => exact le_refl _
  | tail _ step ih => exact le_trans ih step.le

/-- A new node with a fit form over built trees is a built tree. -/
theorem isBuilt_of_newNode {form : Form} {place : Value} {n : NodeRef} (fit : form.IsFit s)
    (operands : ∀ v ∈ form.operands, ∃ m, v = .node m ∧ s.IsBuilt m)
    (h : (newNode form place).runOn s = (.ok n, t)) : s ≤ t ∧ t.IsBuilt n := by
  have le : s ≤ t := by
    cases h
    exact s.le_addNode _
  have made : n.index < t.nodes.size ∧ t.form n = form := by
    cases h
    refine ⟨?_, congrArg Node.form (Store.node_addNode_self s ⟨form, place, []⟩)⟩
    show s.nodes.size < (s.nodes.push _).size
    rw [Array.size_push]
    exact Nat.lt_succ_self _
  have below : ∀ m, t.Operand n m → t.IsBuilt m := by
    intro m operand
    rw [Store.Operand, made.2] at operand
    obtain ⟨m', same, built⟩ := operands _ operand
    cases same
    exact built.mono le
  refine ⟨le, ⟨fun m reached => ?_, .intro _ fun m operand => (below m operand).founded⟩⟩
  obtain rfl | ⟨k, operand, reached⟩ := reached.cases_head
  · refine ⟨made.1, made.2.symm ▸ fit.mono le, fun v hv => ?_⟩
    rw [made.2] at hv
    obtain ⟨m, same, -⟩ := operands v hv
    exact ⟨m, same⟩
  · exact (below k operand).tree m reached

/-- What has passed the check is all nodes, and the check makes nothing. -/
theorem runOn_requireNodes_ok {kind : NodeKind} {place : Value} {vs : List Value} {u : Unit}
    (h : (requireNodes kind place vs).runOn s = (.ok u, t)) :
    t = s ∧ ∀ v ∈ vs, ∃ m, v = .node m := by
  induction vs with
  | nil =>
    cases h
    exact ⟨rfl, nofun⟩
  | cons v more ih =>
    cases v with
    | node m =>
      obtain ⟨same, nodes⟩ := ih h
      refine ⟨same, fun w hw => ?_⟩
      obtain rfl | hw := List.mem_cons.1 hw
      · exact ⟨m, rfl⟩
      · exact nodes w hw
    | _ => cases h

/-- The check of children lets nodes through. -/
theorem runOn_requireNodes {vs : List Value} (nodes : ∀ v ∈ vs, v.isNode = true) (kind : NodeKind)
    (place : Value) (s : Store) : (requireNodes kind place vs).runOn s = (.ok (), s) := by
  induction vs with
  | nil => rfl
  | cons v more ih =>
    obtain ⟨first, rest⟩ := List.forall_mem_cons.1 nodes
    rw [requireNodes, if_pos first]
    exact ih rest

/-- The check of operands lets nodes through. -/
theorem runOn_requireOperands {vs : List Value} (nodes : ∀ v ∈ vs, v.isNode = true)
    (kind : NodeKind) (place : Value) (s : Store) :
    (requireOperands kind place vs).runOn s = (.ok (), s) := by
  induction vs with
  | nil => rfl
  | cons v more ih =>
    obtain ⟨first, rest⟩ := List.forall_mem_cons.1 nodes
    rw [requireOperands, if_pos first]
    exact ih rest

/-- The tuple of the items of a value has just these items. -/
theorem runOn_tupleOf_ok {v w : Value} (h : (tupleOf v).runOn s = (.ok w, t)) :
    s ≤ t ∧ ∃ items stamp, w = .tuple items stamp ∧ s.items? v = some items := by
  have walked {v : Value} (h : (do tuple (← items v) : Attempt Value).runOn s = (.ok w, t)) :
      s ≤ t ∧ ∃ items stamp, w = .tuple items stamp ∧ s.items? v = some items := by
    refine ⟨le_of_makes ((makes_ask _).bind makes_tuple) h, ?_⟩
    obtain ⟨items, t₁, asked, h⟩ := Work.runOn_bind_eq_ok.1 h
    rw [Attempt.items, runOn_ask] at asked
    split at asked
    · next found =>
      cases asked
      cases h
      refine ⟨_, _, rfl, ?_⟩
      rw [Store.items] at found
      split at found
      · next walks =>
        cases found
        exact walks
      · cases found
    · cases asked
  cases v with
  | tuple items stamp =>
    cases h
    exact ⟨le_refl _, items, stamp, rfl, rfl⟩
  | _ => exact walked h

theorem runOn_reference_ok {name place : Value} {n : NodeRef} (known : s.Knows name)
    (h : (reference name place).runOn s = (.ok n, t)) : s ≤ t ∧ t.IsBuilt n := by
  rw [reference, Work.runOn_bind_ok (Work.runOn_get s)] at h
  have refused : ∀ {n t}, (reference.refuse name place).runOn s ≠ (.ok n, t) := by
    intro n t h
    obtain ⟨shown, t₁, -, h⟩ := Work.runOn_bind_eq_ok.1 h
    cases h
  split at h
  · next text named =>
    split at h
    · exact absurd h refused
    · next filled =>
      have fit : (Form.reference name).IsFit s := ⟨⟨text, named, filled⟩, fun r e => known.token e⟩
      exact isBuilt_of_newNode fit nofun h
  · exact absurd h refused

/-- A call over a callee that is a node already. -/
theorem runOn_callOf_ok {callee args place : Value} {n : NodeRef} (known : s.Knows callee)
    (walkable : ∀ vs, s.items? args = some vs → ∀ v ∈ vs, s.Knows v)
    (h : (do
      let args ← tupleOf args
      requireNodes .call place (callee :: (← items args))
      newNode (.call callee args) place : Attempt NodeRef).runOn s = (.ok n, t)) :
    s ≤ t ∧ t.IsBuilt n := by
  obtain ⟨args', t₁, walked, checked⟩ := Work.runOn_bind_eq_ok.1 h
  obtain ⟨le, vs, stamp, rfl, found⟩ := runOn_tupleOf_ok walked
  obtain ⟨vs', t₂, asked, checked⟩ := Work.runOn_bind_eq_ok.1 checked
  cases asked
  obtain ⟨u, t₃, required, made⟩ := Work.runOn_bind_eq_ok.1 checked
  obtain ⟨rfl, nodes⟩ := runOn_requireNodes_ok required
  have operands : ∀ v ∈ (Form.call callee (.tuple vs stamp)).operands,
      ∃ m, v = .node m ∧ t₃.IsBuilt m := by
    intro v hv
    obtain ⟨m, rfl⟩ := nodes v hv
    refine ⟨m, rfl, ?_⟩
    obtain rfl | hv := List.mem_cons.1 hv
    · exact (known.mono le).node rfl
    · exact ((walkable vs found _ hv).mono le).node rfl
  have fit : (Form.call callee (.tuple vs stamp)).IsFit t₃ := ⟨vs, stamp, rfl⟩
  obtain ⟨le', built⟩ := isBuilt_of_newNode fit operands made
  exact ⟨le_trans le le', built⟩

/-- A callable in the place of the callee becomes a literal, and that is a built tree as well. -/
theorem runOn_call_ok {callee args place : Value} {n : NodeRef} (known : s.Knows callee)
    (walkable : ∀ vs, s.items? args = some vs → ∀ v ∈ vs, s.Knows v)
    (h : (call callee args place).runOn s = (.ok n, t)) : s ≤ t ∧ t.IsBuilt n := by
  rw [call] at h
  split at h
  · obtain ⟨wrapped, s₁, made, rest⟩ := Work.runOn_bind_eq_ok.1 h
    rw [Work.runOn_map] at made
    rcases added : (literal callee .null).runOn s with ⟨e | m, t₁⟩
    · rw [added] at made
      cases made
    · rw [added] at made
      cases made
      have fit : (Form.literal callee).IsFit s := trivial
      obtain ⟨le, built⟩ := isBuilt_of_newNode fit nofun added
      have same : t₁.items? args = s.items? args := by
        cases added
        cases args <;> rfl
      obtain ⟨le', built'⟩ := runOn_callOf_ok (Store.knows_node built)
        (fun vs found v hv => (walkable vs (same ▸ found) v hv).mono le) rest
      exact ⟨le_trans le le', built'⟩
  · exact runOn_callOf_ok known walkable h

/-- A node over operands that are checked, and nothing else. -/
theorem runOn_checked_ok {form : Form} {kind : NodeKind} {place : Value} {n : NodeRef}
    (fit : form.IsFit s) (known : ∀ v ∈ form.operands, s.Knows v)
    (h : (do requireNodes kind place form.operands; newNode form place : Attempt NodeRef).runOn s =
      (.ok n, t)) : s ≤ t ∧ t.IsBuilt n := by
  obtain ⟨u, t₁, required, made⟩ := Work.runOn_bind_eq_ok.1 h
  obtain ⟨rfl, nodes⟩ := runOn_requireNodes_ok required
  refine isBuilt_of_newNode fit (fun v hv => ?_) made
  obtain ⟨m, rfl⟩ := nodes v hv
  exact ⟨m, rfl, (known _ hv).node rfl⟩

theorem runOn_raises_ok {exception place : Value} {n : NodeRef} (known : s.Knows exception)
    (h : (raises exception place).runOn s = (.ok n, t)) : s ≤ t ∧ t.IsBuilt n := by
  rw [raises, Work.runOn_bind_ok (Work.runOn_get s)] at h
  have refused : ∀ {n t}, (raises.refuse exception place).runOn s ≠ (.ok n, t) := by
    intro n t h
    cases h
  split at h
  · obtain ⟨args, t₁, tupled, h⟩ := Work.runOn_bind_eq_ok.1 h
    obtain ⟨e, t₂, made, h⟩ := Work.runOn_bind_eq_ok.1 h
    have le := le_trans (le_of_makes (makes_tuple _) tupled)
      (le_of_makes (makes_newFault _ _ _ _) made)
    have fit : (Form.raise (.fault e)).IsFit t₂ := by
      cases made
      refine ⟨_, rfl, ?_, ?_⟩
      · show t₁.faults.size < (t₁.faults.push _).size
        rw [Array.size_push]
        exact Nat.lt_succ_self _
      · exact congrArg (fun x => x.kind.isOrdinary) (Store.fault_addFault_self t₁ _)
    obtain ⟨le', built⟩ := isBuilt_of_newNode fit nofun h
    exact ⟨le_trans le le', built⟩
  · split at h
    · next e _ ordinary =>
      have fit : (Form.raise (.fault e)).IsFit s := ⟨e, rfl, known.fault rfl, ordinary⟩
      exact isBuilt_of_newNode fit nofun h
    · exact absurd h refused
  · exact absurd h refused

/-- A node that a constructor makes out of what was made before is a built tree. -/
theorem isBuilt_of_node {form : Form} {place : Value} {n : NodeRef}
    (known : ∀ v ∈ form.values, s.Knows v)
    (walkable : ∀ callee args vs, form = .call callee args → s.items? args = some vs →
      ∀ v ∈ vs, s.Knows v)
    (h : (node form place).runOn s = (.ok n, t)) : s ≤ t ∧ t.IsBuilt n := by
  cases form with
  | literal v =>
    have fit : (Form.literal v).IsFit s := trivial
    exact isBuilt_of_newNode fit nofun h
  | reference name => exact runOn_reference_ok (known name (by simp [Form.values])) h
  | call callee args =>
    exact runOn_call_ok (known callee (by simp [Form.values])) (fun vs => walkable _ _ vs rfl) h
  | fallback op lhs rhs =>
    have fit : (Form.fallback op lhs rhs).IsFit s := trivial
    exact runOn_checked_ok fit known h
  | ternary condition thenBranch elseBranch =>
    have fit : (Form.ternary condition thenBranch elseBranch).IsFit s := trivial
    exact runOn_checked_ok fit known h
  | raise exception => exact runOn_raises_ok (known exception (by simp [Form.values])) h

/-- An operator that is made over two built trees is a built tree. -/
theorem isBuilt_of_fallback {op : Operator} {l r n : NodeRef} {place : Value}
    (left : s.IsBuilt l) (right : s.IsBuilt r)
    (h : (fallback op (.node l) (.node r) place).runOn s = (.ok n, t)) : s ≤ t ∧ t.IsBuilt n := by
  have fit : (Form.fallback op (.node l) (.node r)).IsFit s := trivial
  refine runOn_checked_ok fit (fun v hv => ?_) h
  simp only [Form.operands, List.mem_cons, List.not_mem_nil, or_false] at hv
  obtain rfl | rfl := hv
  · exact Store.knows_node left
  · exact Store.knows_node right

/-- Makes an operator with a place whose operands are one and the same node. -/
def doubled (form : Form) (op : Operator) (place : Value) : Attempt NodeRef := do
  let operand ← node form .null
  fallback op (.node operand) (.node operand) place

theorem isBuilt_of_doubled {form : Form} {op : Operator} {place : Value} {n : NodeRef}
    (known : ∀ v ∈ form.values, s.Knows v) (notCall : form.kind ≠ .call)
    (h : (doubled form op place).runOn s = (.ok n, t)) : t.IsBuilt n := by
  obtain ⟨m, s₁, first, second⟩ := Work.runOn_bind_eq_ok.1 h
  obtain ⟨-, built⟩ :=
    isBuilt_of_node known (fun _ _ _ same => absurd (congrArg Form.kind same) notCall) first
  exact (isBuilt_of_fallback built built second).2

end Attempt

end Fallback
