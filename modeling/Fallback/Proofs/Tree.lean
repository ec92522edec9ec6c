import Fallback.Proofs.Change
import Mathlib.Order.Defs.PartialOrder

/-!
Trees, and what lasts.

`Store.IsTree` says of a node that it and all the nodes below it are as the constructors make them.
A node may stand in many places, and even below itself. Nodes are never overwritten by an
evaluation, and neither are the kind of a fault or the text of a token. `s ≤ t` says that all this
lasts from `s` to `t`, and a tree stays a tree with the same operands while it does. The host has
the whole world in its hands, so that it leaves trees alone is an assumption about it,
`Host.KeepsTrees`.
-/
namespace Fallback

open Relation (ReflTransGen)

/-! ## What lasts -/

/-- What was made in the first store is still there in the second, and what is fixed about it is the
same: a node as a whole, the kind of a fault and the text of a token. -/
structure Store.Lasts (s t : Store) : Prop where
  node {n : NodeRef} (h : n.index < s.nodes.size) : n.index < t.nodes.size ∧ t.node n = s.node n
  kind {e : FaultRef} (h : e.index < s.faults.size) :
    e.index < t.faults.size ∧ (t.fault e).kind = (s.fault e).kind
  text {r : TokenRef} (h : r.index < s.tokens.size) :
    r.index < t.tokens.size ∧ (t.token r).text = (s.token r).text

instance : Preorder Store where
  le := Store.Lasts
  le_refl _ := ⟨fun h => ⟨h, rfl⟩, fun h => ⟨h, rfl⟩, fun h => ⟨h, rfl⟩⟩
  le_trans s t u h k := by
    refine ⟨fun {n} hn => ?_, fun {e} he => ?_, fun {r} hr => ?_⟩
    · obtain ⟨hn', eq⟩ := h.node hn
      exact ⟨(k.node hn').1, (k.node hn').2.trans eq⟩
    · obtain ⟨he', eq⟩ := h.kind he
      exact ⟨(k.kind he').1, (k.kind he').2.trans eq⟩
    · obtain ⟨hr', eq⟩ := h.text hr
      exact ⟨(k.text hr').1, (k.text hr').2.trans eq⟩

/-- Stores with the same nodes, tokens and faults differ in nothing that lasts. -/
theorem Store.le_of_eq {s t : Store} (hn : t.nodes = s.nodes) (hf : t.faults = s.faults)
    (ht : t.tokens = s.tokens) : s ≤ t := by
  refine ⟨fun {n} h => ?_, fun {e} h => ?_, fun {r} h => ?_⟩
  · exact ⟨hn ▸ h, by simp [node, hn]⟩
  · exact ⟨hf ▸ h, by simp [fault, hf]⟩
  · exact ⟨ht ▸ h, by simp [token, ht]⟩

/-- No fault is lost. -/
theorem Store.size_le_of_le {s t : Store} (h : s ≤ t) : s.faults.size ≤ t.faults.size := by
  refine Nat.le_of_not_lt fun less => ?_
  have last : (⟨t.faults.size⟩ : FaultRef).index < t.faults.size := (h.kind less).1
  exact Nat.lt_irrefl _ last

theorem Store.Change.le {s t : Store} (h : s.Change t) : s ≤ t := by
  cases h with
  | fault e =>
    refine ⟨fun hn => ⟨hn, rfl⟩, fun {r} hr => ?_, fun hr => ⟨hr, rfl⟩⟩
    refine ⟨?_, by rw [fault_addFault_of_lt e hr]⟩
    show r.index < (s.faults.push e).size
    rw [Array.size_push]
    exact Nat.lt_succ_of_lt hr
  | stamp => exact le_of_eq rfl rfl rfl
  | outcome r => exact le_of_eq rfl rfl rfl
  | item stamp v => exact le_of_eq rfl rfl rfl
  | invocation f args => exact le_of_eq rfl rfl rfl

/-- Attaching a place to a fault changes nothing that lasts. -/
theorem Store.le_locate (s : Store) (e : FaultRef) (place : Value) : s ≤ s.locate e place := by
  refine ⟨fun hn => ⟨hn, rfl⟩, fun {r} hr => ?_, fun hr => ⟨hr, rfl⟩⟩
  refine ⟨by simpa [locate, setFault] using hr, ?_⟩
  by_cases h : r = e
  · subst h
    rw [fault_locate_self place hr]
  · rw [fault_locate_of_ne s place h]

/-- The host leaves alone what lasts, whatever a routine or a truth test does. -/
structure Host.KeepsTrees {σ : Type} (host : Host σ) : Prop where
  run (r : RoutineRef) (args : List Value) (w : World σ) :
    w.store ≤ (host.run r args w).2.store
  truth (o : ObjectRef) (w : World σ) : w.store ≤ (host.truth o w).2.store

/-- The host whose routines do nothing and whose objects are all true. -/
def Host.idle : Host Unit :=
  ⟨fun _ _ w => (.ok .null, w), fun _ w => (.ok true, w)⟩

theorem keepsTrees_idle : Host.idle.KeepsTrees :=
  ⟨fun _ _ _ => le_refl _, fun _ _ => le_refl _⟩

section Hosts

variable {σ α : Type} {host : Host σ}

theorem Change.le {w w' : World σ} (h : Change host w w') (hk : host.KeepsTrees) :
    w.store ≤ w'.store := by
  cases h with
  | store h => exact h.le
  | run r args => exact hk.run r args w
  | truth o => exact hk.truth o w

theorem Change.le_of_reflTransGen {w w' : World σ}
    (h : ReflTransGen (Change host) w w') (hk : host.KeepsTrees) : w.store ≤ w'.store := by
  induction h with
  | refl => exact le_refl _
  | tail _ step ih => exact le_trans ih (step.le hk)

/-- Work that makes nothing but changes leaves what lasts. -/
theorem Work.Makes.le {x : Act σ α} (hx : x.Makes (Change host)) (hk : host.KeepsTrees)
    (w : World σ) : w.store ≤ (x.runOn w).2.store :=
  Change.le_of_reflTransGen (hx w) hk

end Hosts

/-! ## Trees -/

/-- The items of a tuple; no other value has any. -/
def Value.tupleItems : Value → List Value
  | .tuple items _ => items
  | _ => []

/-- A text stays the same text. -/
theorem Store.text?_of_le {s t : Store} (h : s ≤ t) {name : Value}
    (there : ∀ r, name = .token r → r.index < s.tokens.size) {text : String}
    (named : s.text? name = some text) : t.text? name = some text := by
  cases name with
  | token r => simpa [text?, (h.text (there r rfl)).2] using named
  | _ => exact named

namespace Form

/-- The operands of a form, in the order in which they may be evaluated. -/
def operands : Form → List Value
  | .call callee args => callee :: args.tupleItems
  | .fallback _ lhs rhs => [lhs, rhs]
  | .ternary condition thenBranch elseBranch => [condition, thenBranch, elseBranch]
  | .literal _ | .reference _ | .raise _ => []

/-- The fields that are no operands hold what the constructors ask for: a name that is a text and
not empty, the tuple of the arguments of a call, and a fault that can be raised. -/
def IsFit (s : Store) : Form → Prop
  | .reference name =>
    (∃ t, s.text? name = some t ∧ t ≠ "") ∧ ∀ r, name = .token r → r.index < s.tokens.size
  | .call _ args => ∃ items stamp, args = .tuple items stamp
  | .raise exception =>
    ∃ e, exception = .fault e ∧ e.index < s.faults.size ∧ (s.fault e).kind.isOrdinary = true
  | .literal _ | .fallback _ _ _ | .ternary _ _ _ => True

theorem IsFit.mono {s t : Store} (h : s ≤ t) {f : Form} (hf : f.IsFit s) : f.IsFit t := by
  cases f with
  | reference name =>
    obtain ⟨⟨text, named, filled⟩, there⟩ := hf
    exact ⟨⟨text, Store.text?_of_le h there named, filled⟩, fun r e => (h.text (there r e)).1⟩
  | raise exception =>
    obtain ⟨e, rfl, he, ho⟩ := hf
    exact ⟨e, rfl, (h.kind he).1, (h.kind he).2 ▸ ho⟩
  | _ => exact hf

end Form

namespace Store

/-- The second node is an operand of the first. -/
def Operand (s : Store) (n m : NodeRef) : Prop :=
  .node m ∈ (s.form n).operands

theorem operand_of_form {s : Store} {n m : NodeRef} {f : Form} (form : s.form n = f)
    (h : .node m ∈ f.operands) : s.Operand n m := by
  rw [Operand, form]
  exact h

/-- A node as a constructor makes it. -/
structure IsWhole (s : Store) (n : NodeRef) : Prop where
  made : n.index < s.nodes.size
  fit : (s.form n).IsFit s
  operands : ∀ v ∈ (s.form n).operands, ∃ m, v = .node m

/-- Every node that can be reached from the node, and the node itself, is whole. -/
def IsTree (s : Store) (n : NodeRef) : Prop :=
  ∀ m, ReflTransGen s.Operand n m → s.IsWhole m

theorem form_eq_of_le {s t : Store} (h : s ≤ t) {n : NodeRef} (hn : n.index < s.nodes.size) :
    t.form n = s.form n := by
  rw [form, form, (h.node hn).2]

theorem IsWhole.mono {s t : Store} (h : s ≤ t) {n : NodeRef} (hn : s.IsWhole n) :
    t.IsWhole n := by
  have same := form_eq_of_le h hn.made
  exact ⟨(h.node hn.made).1, same ▸ hn.fit.mono h, same ▸ hn.operands⟩

theorem IsTree.whole {s : Store} {n : NodeRef} (hn : s.IsTree n) : s.IsWhole n :=
  hn n .refl

/-- The operands of a tree are trees. -/
theorem IsTree.operand {s : Store} {n m : NodeRef} (hn : s.IsTree n) (h : s.Operand n m) :
    s.IsTree m :=
  fun k hk => hn k (.head h hk)

/-- A whole node over trees is a tree. -/
theorem IsTree.of_operands {s : Store} {n : NodeRef} (whole : s.IsWhole n)
    (below : ∀ m, s.Operand n m → s.IsTree m) : s.IsTree n := by
  intro m reached
  obtain rfl | ⟨k, operand, path⟩ := reached.cases_head
  · exact whole
  · exact below k operand m path

/-- A node whose operands are given trees is a tree. -/
theorem IsTree.of_trees {s : Store} {n : NodeRef} (ms : List NodeRef)
    (made : n.index < s.nodes.size) (fit : (s.form n).IsFit s)
    (operands : (s.form n).operands = ms.map .node) (below : ∀ m ∈ ms, s.IsTree m) :
    s.IsTree n := by
  refine .of_operands ⟨made, fit, fun v hv => ?_⟩ fun m operand => ?_
  · rw [operands] at hv
    obtain ⟨m, -, same⟩ := List.mem_map.1 hv
    exact ⟨m, same.symm⟩
  · rw [Operand, operands] at operand
    obtain ⟨k, mem, same⟩ := List.mem_map.1 operand
    cases same
    exact below _ mem

/-- The nodes of a tree stay the same. -/
theorem IsTree.reached {s t : Store} {n m : NodeRef} (hn : s.IsTree n) (h : s ≤ t)
    (hm : ReflTransGen t.Operand n m) : ReflTransGen s.Operand n m := by
  induction hm with
  | refl => exact .refl
  | tail _ step ih =>
    rw [Operand, form_eq_of_le h (hn _ ih).made] at step
    exact ih.tail step

/-- A tree stays a tree. -/
theorem IsTree.mono {s t : Store} (h : s ≤ t) {n : NodeRef} (hn : s.IsTree n) : t.IsTree n :=
  fun m hm => (hn m (hn.reached h hm)).mono h

end Store

end Fallback
