import Fallback.Proofs.Provenance
import Fallback.Proofs.Twin

/-!
Evaluations of twin trees, in lockstep.

`Position.Twin` is the invariant: the two visits are to nodes that stand for each other, from like
states, and the nodes that are open above them stand for each other one by one. What comes after is
related by `Position.Corresponds`, which adds to the likeness of two outcomes where they come from.

One step is `Twin.matches_next` with `Twin.child`: the two rules make the same move, and where it is
a visit the visits below are twins. From it `Twin.exists_progress` follows the one visit as far as
it comes. `Twin.endsAlike` is the result, by induction on the budget: twin visits end alike, be it
with an outcome or with a fault that breaks them off.
-/
namespace Fallback

open List (Forall₂)
open Relation (ReflTransGen TransGen)

variable {σ : Type} {host : Host σ} {L : Likeness σ} {ρ ρ₁ : Pairing} {base : Store}

/-! ## Twin nodes in later stores -/

section Later

variable {s t : Store} {n m : NodeRef}

theorem Store.placeOf_of_le (le : base ≤ s) (made : n.index < base.nodes.size) :
    s.placeOf (.node n) = base.placeOf (.node n) :=
  congrArg (fun c : Node => (Environment.get? c.attributes placeName).getD .null) (le.node made).2

/-- Nodes that stand for each other have like places in like stores. -/
theorem Store.Like.twinPlaces (alike : s.Like ρ t) (twins : base.Twins L.nodes)
    (nodes : L.nodes n m) (le' : base ≤ t) (made : n.index < base.nodes.size)
    (made' : m.index < base.nodes.size) :
    (s.placeOf (.node n)).Like ρ (t.placeOf (.node m)) := by
  have same : t.placeOf (.node n) = t.placeOf (.node m) := by
    rw [placeOf_of_le le' made, placeOf_of_le le' made', twins.place nodes]
  rw [← same]
  exact alike.placeOf (.plain rfl)

/-- A form that lasts is like itself. -/
theorem Store.Like.formSelf (alike : s.Like ρ t) (le : base ≤ s) (le' : base ≤ t)
    (made : n.index < base.nodes.size) : (base.form n).Like ρ (base.form n) := by
  have like := (alike.rest.node n).form
  have first := form_eq_of_le le made
  have second := form_eq_of_le le' made
  rw [form] at first second
  rw [first, second] at like
  exact like

end Later

namespace Position

variable {p p' c c' root root' : Position σ} {os os' : List Outcome} {r r' : Run σ}

/-! ## Twin visits -/

/-- The visit is sound, and it is to a node of a tree that was in a store before. -/
structure IsWithin (base : Store) (p : Position σ) : Prop where
  sound : p.IsSound
  le : base ≤ p.run.world.store
  tree : base.IsTree p.node

theorem IsWithin.form_eq (h : p.IsWithin base) : p.form = base.form p.node :=
  Store.form_eq_of_le h.le h.tree.whole.made

/-- What is visited below is a node of a tree as well. -/
theorem IsWithin.child {i : Nat} (h : p.IsWithin base) (hk : host.KeepsTrees)
    (child : p.Child host i c) : c.IsWithin base := by
  obtain ⟨os, r, progress, decided⟩ := child.decided
  have before := (progress.push_eq h.sound hk).2
  have after := Run.Change.le_of_reflTransGen ((p.form.makes_next os).of_run decided) hk
  refine ⟨child.isSound h.sound hk, le_trans h.le (le_trans before after), h.tree.operand ?_⟩
  rw [Store.Operand, ← h.form_eq]
  exact Form.next_visit_mem decided

theorem IsWithin.reaches (h : p.IsWithin base) (hk : host.KeepsTrees) (reached : p.Reaches host c) :
    c.IsWithin base := by
  induction reached with
  | refl => exact h
  | tail _ step ih =>
    obtain ⟨i, child⟩ := step
    exact ih.child hk child

/-- The visits are to nodes that stand for each other, with like worlds and like frames, in which
nodes are open that stand for each other. -/
structure Twin (L : Likeness σ) (base : Store) (ρ : Pairing) (p p' : Position σ) : Prop where
  first : p.IsWithin base
  second : p'.IsWithin base
  budget : p.budget = p'.budget
  nodes : L.nodes p.node p'.node
  run : p.run.Like L ρ p'.run
  path : Forall₂ (fun i j => ∃ n m, i = .node n ∧ j = .node m ∧ L.nodes n m ∧
    TransGen base.Operand n p.node ∧ TransGen base.Operand m p'.node)
    p.run.frame.stack p'.run.frame.stack

theorem Twin.form (h : p.Twin L base ρ p') (twins : base.Twins L.nodes) :
    p.form.Twin L.nodes p'.form := by
  rw [h.first.form_eq, h.second.form_eq]
  exact twins.form h.nodes

theorem Twin.kind (h : p.Twin L base ρ p') (twins : base.Twins L.nodes) : p.kind = p'.kind :=
  congrArg NodeKind.name (h.form twins).kind

/-- Of two stacks of nodes that are related one by one, the one has a node on it if the other has
a node that can only be related to it. -/
theorem mem_stack_iff {R : NodeRef → NodeRef → Prop} {n m : NodeRef} {is js : List Identity}
    (path : Forall₂ (fun i j => ∃ n' m', i = .node n' ∧ j = .node m' ∧ R n' m') is js)
    (recurs : ∀ {n' m'}, R n' m' → (n' = n ↔ m' = m)) :
    Identity.node n ∈ is ↔ Identity.node m ∈ js := by
  induction path with
  | nil => simp
  | cons related _ ih =>
    obtain ⟨n', m', rfl, rfl, related⟩ := related
    have one : Identity.node n = .node n' ↔ Identity.node m = .node m' := by
      rw [Identity.node.injEq, Identity.node.injEq, eq_comm, recurs related, eq_comm]
    rw [List.mem_cons, List.mem_cons]
    exact or_congr one ih

/-- A node is open on the one side if the node that stands for it is on the other. -/
theorem Twin.isOpen (h : p.Twin L base ρ p') (twins : base.Twins L.nodes) :
    p.value.identity ∈ p.run.frame.active ↔ p'.value.identity ∈ p'.run.frame.active := by
  rw [h.first.sound.balanced.active_eq, h.second.sound.balanced.active_eq]
  exact mem_stack_iff h.path fun twin => twins.recurs twin.1 h.nodes twin.2.1 twin.2.2

/-- The rule of the node is to copy a fault that has a way of its own to be copied. -/
def CopiesOwnWay (host : Host σ) (p : Position σ) : Prop :=
  ∃ x r, p.form = .raise (.fault x) ∧ p.Progress host [] r ∧ r.world.store.CopiesOwnWay x

/-- What is assumed to compare the evaluations that two visits start. -/
structure Comparable (host : Host σ) (L : Likeness σ) (base : Store) (root root' : Position σ) :
    Prop where
  keepsTrees : host.KeepsTrees
  respects : host.Respects L
  twins : base.Twins L.nodes
  plain {c c' : Position σ} (reached : root.Reaches host c) (reached' : root'.Reaches host c')
    (nodes : L.nodes c.node c'.node) (swapped : c.form.Swaps c'.form) :
    ¬c.CopiesOwnWay host ∧ ¬c'.CopiesOwnWay host

/-- What the two outcomes raise was produced by visits that stand for each other, and it is alike
unless these raise different faults. -/
def Accounts (host : Host σ) (L : Likeness σ) (root root' : Position σ) (ρ : Pairing)
    (o p : Outcome) : Prop :=
  ∀ e f, o.result = .raised e → p.result = .raised f →
    ∃ c c' made made', root.Reaches host c ∧ root'.Reaches host c' ∧ L.nodes c.node c'.node ∧
      c.Produces host o e made ∧ c'.Produces host p f made' ∧
      (e.Like ρ f ∨ c.form.Swaps c'.form)

/-- The outcomes are twins whose origin is accounted for. -/
structure Corresponds (host : Host σ) (L : Likeness σ) (base : Store) (root root' : Position σ)
    (ρ : Pairing) (o p : Outcome) : Prop where
  twin : o.Twin base ρ p
  accounts : Accounts host L root root' ρ o p

theorem Corresponds.mono (le : ρ ≤ ρ₁) {o p : Outcome}
    (h : Corresponds host L base root root' ρ o p) :
    Corresponds host L base root root' ρ₁ o p := by
  refine ⟨h.twin.mono le, fun e f raised raised' => ?_⟩
  obtain ⟨c, c', made, made', reached, reached', nodes, produces, produces', alike⟩ :=
    h.accounts e f raised raised'
  exact ⟨c, c', made, made', reached, reached', nodes, produces, produces',
    alike.imp (·.mono le) id⟩

/-- The last outcomes belong together if all do. -/
theorem Corresponds.getLast? {o o' : Outcome}
    (all : Forall₂ (Corresponds host L base root root' ρ) os os') (last : os.getLast? = some o)
    (last' : os'.getLast? = some o') : Corresponds host L base root root' ρ o o' := by
  obtain ⟨before, rfl⟩ := List.getLast?_eq_some_iff.1 last
  obtain ⟨before', rfl⟩ := List.getLast?_eq_some_iff.1 last'
  have reversed := List.forall₂_reverse_iff.2 all
  rw [List.reverse_concat, List.reverse_concat] at reversed
  exact (List.forall₂_cons.1 reversed).1

/-- The rule of a node that finishes with a raised outcome produces it. -/
theorem IsSound.produces (sound : p.IsSound) (hk : host.KeepsTrees)
    (progress : p.Progress host os r) {o : Outcome} {e : Value}
    (decided : (p.form.next host os).runOn r = (.ok (.finish o), r'))
    (raised : o.result = .raised e) : p.Produces host o e r' :=
  ⟨os, r, progress, decided, Form.raises_of_next
    (sound.tree.whole.fit.mono (progress.push_eq sound hk).2) progress.known decided raised⟩

/-- What lasts has lasted when the rule of a node has ended. -/
theorem Settles.le {o : Outcome} (h : p.Settles host o r) (sound : p.IsSound)
    (hk : host.KeepsTrees) : p.run.world.store ≤ r.world.store := by
  obtain ⟨os, r₀, progress, decided⟩ := h
  exact le_trans (progress.push_eq sound hk).2
    (Run.Change.le_of_reflTransGen (Form.changes_of_end decided) hk)

/-- The two visits come to ends that belong together. -/
def EndsAlike (host : Host σ) (L : Likeness σ) (base : Store) (root root' : Position σ)
    (ρ : Pairing) (p p' : Position σ) : Prop :=
  Matches (Run.Like L) ρ (Corresponds host L base root root') (p.ending host) (p'.ending host)

section Lockstep

variable (comparable : Comparable host L base root root') (twin : p.Twin L base ρ p')
  (reached : root.Reaches host p) (reached' : root'.Reaches host p')
include comparable twin

theorem Twin.matches_enterNode :
    Matches (Run.Like L) ρ Pairing.Equal ((enterNode host p.value).runOn p.run)
      ((enterNode host p'.value).runOn p'.run) :=
  Fallback.matches_enterNode comparable.respects twin.run (twin.isOpen comparable.twins)
    (.inr ⟨_, _, rfl, rfl, twin.nodes⟩) (twin.kind comparable.twins)
    (twin.run.world.store.twinPlaces comparable.twins twin.nodes twin.second.le
      twin.first.tree.whole.made twin.second.tree.whole.made)

include reached reached' in
/-- The rules of twin visits that have come equally far make the same move. -/
theorem Twin.matches_next (progress : p.Progress host os r) (progress' : p'.Progress host os' r')
    (alike : r.Like L ρ₁ r')
    (all : Forall₂ (Corresponds host L base root root' ρ₁) os os') :
    Matches (Run.Like L) ρ₁ (Move.Twin base L.nodes p.form p'.form) ((p.form.next host os).runOn r)
      ((p'.form.next host os').runOn r') := by
  have first := twin.first
  have second := twin.second
  have laterOne := le_trans first.le (progress.push_eq first.sound comparable.keepsTrees).2
  have laterTwo := le_trans second.le (progress'.push_eq second.sound comparable.keepsTrees).2
  have self := alike.world.store.formSelf laterOne laterTwo first.tree.whole.made
  rw [← first.form_eq] at self
  refine Fallback.matches_next comparable.respects alike laterOne laterTwo
    (twin.form comparable.twins) (first.form_eq ▸ first.tree.whole.fit)
    (second.form_eq ▸ second.tree.whole.fit) self (all.imp fun _ _ both => both.twin) ?_
  intro x y differ raise raise'
  obtain rfl := progress.eq_nil_of_raise raise
  cases all
  obtain ⟨plain, plain'⟩ :=
    comparable.plain reached reached' twin.nodes ⟨x, y, differ, raise, raise'⟩
  exact ⟨fun own => plain ⟨x, r, raise, progress, own⟩,
    fun own => plain' ⟨y, r', raise', progress', own⟩⟩

/-- An operand that both rules visit is visited by twin visits. -/
theorem Twin.child (progress : p.Progress host os r) (progress' : p'.Progress host os' r')
    {i : Nat} {v w : Value} {r₁ r₁' : Run σ}
    (decided : (p.form.next host os).runOn r = (.ok (.visit i v), r₁))
    (decided' : (p'.form.next host os').runOn r' = (.ok (.visit i w), r₁'))
    (operands : v.Twin L.nodes w) (alike : r₁.Like L ρ₁ r₁') :
    ∃ c c', v = c.value ∧ w = c'.value ∧ p.Child host i c ∧ p'.Child host i c' ∧ c.run = r₁ ∧
      c'.run = r₁' ∧ c.Twin L base ρ₁ c' := by
  have hk := comparable.keepsTrees
  obtain ⟨_, _, rfl, rfl, nodes⟩ := operands
  obtain ⟨c, same, child, sound, rfl, -⟩ := progress.child twin.first.sound hk decided
  obtain ⟨c', same', child', sound', rfl, -⟩ := progress'.child twin.second.sound hk decided'
  cases same
  cases same'
  obtain ⟨push, le⟩ := progress.push_eq twin.first.sound hk
  obtain ⟨push', le'⟩ := progress'.push_eq twin.second.sound hk
  have changes := (p.form.makes_next os).of_run decided
  have changes' := (p'.form.makes_next os').of_run decided'
  have operand : base.Operand p.node c.node := by
    rw [Store.Operand, ← twin.first.form_eq]
    exact Form.next_visit_mem decided
  have operand' : base.Operand p'.node c'.node := by
    rw [Store.Operand, ← twin.second.form_eq]
    exact Form.next_visit_mem decided'
  refine ⟨c, c', rfl, rfl, child, child', rfl, rfl, ⟨sound, ?_, twin.first.tree.operand operand⟩,
    ⟨sound', ?_, twin.second.tree.operand operand'⟩, ?_, nodes, alike, ?_⟩
  · exact le_trans twin.first.le (le_trans le (Run.Change.le_of_reflTransGen changes hk))
  · exact le_trans twin.second.le (le_trans le' (Run.Change.le_of_reflTransGen changes' hk))
  · exact Nat.succ.inj (child.budget.trans (twin.budget.trans child'.budget.symm))
  · rw [Run.Change.frame_eq changes, Run.Change.frame_eq changes', Frame.stack_of_push push,
      Frame.stack_of_push push']
    refine .cons ⟨_, _, rfl, rfl, twin.nodes, .single operand, .single operand'⟩ ?_
    refine twin.path.imp fun _ _ above => ?_
    obtain ⟨n, m, rfl, rfl, nodes', path, path'⟩ := above
    exact ⟨n, m, rfl, rfl, nodes', path.tail operand, path'.tail operand'⟩

include reached reached'

/-- An operand that the one rule visits has one that the other visits, and the visits come to ends
that belong together if the visits below do. -/
theorem Twin.visit (progress : p.Progress host os r) (progress' : p'.Progress host os' r')
    (alike : r.Like L ρ₁ r') (all : Forall₂ (Corresponds host L base root root' ρ₁) os os')
    (below : ∀ {ρ₂ c c'}, c.budget < p.budget → Twin L base ρ₂ c c' → root.Reaches host c →
      root'.Reaches host c' → EndsAlike host L base root root' ρ₂ c c')
    {i : Nat} {v : Value} {r₁ : Run σ}
    (decided : (p.form.next host os).runOn r = (.ok (.visit i v), r₁)) :
    ∃ w r₁', (p'.form.next host os').runOn r' = (.ok (.visit i w), r₁') ∧
      Matches (Run.Like L) ρ₁ (Corresponds host L base root root')
        ((evalNode host (p.budget - 1) v).runOn r₁)
        ((evalNode host (p'.budget - 1) w).runOn r₁') := by
  have moves := twin.matches_next comparable reached reached' progress progress' alike all
  rw [decided] at moves
  obtain ⟨_, r₁', ρ₂, decided', le, moved, move⟩ := moves.of_ok
  cases move with
  | @visit _ w _ operands =>
    obtain ⟨c, c', rfl, rfl, child, child', rfl, rfl, twins⟩ :=
      twin.child comparable progress progress' decided decided' operands moved
    have less : c.budget < p.budget := by
      have := child.budget
      omega
    have ends := below less twins (reached.tail ⟨i, child⟩) (reached'.tail ⟨i, child'⟩)
    rw [EndsAlike, ← child.ending_eq, ← child'.ending_eq] at ends
    exact ⟨_, _, decided', ends.weaken le⟩

/-- However far the one visit comes, the other comes as far, and in the same way. -/
theorem Twin.exists_progress
    (below : ∀ {ρ₂ c c'}, c.budget < p.budget → Twin L base ρ₂ c c' → root.Reaches host c →
      root'.Reaches host c' → EndsAlike host L base root root' ρ₂ c c')
    (progress : p.Progress host os r) :
    ∃ ρ₁ os' r', ρ ≤ ρ₁ ∧ p'.Progress host os' r' ∧ r.Like L ρ₁ r' ∧
      Forall₂ (Corresponds host L base root root' ρ₁) os os' := by
  induction progress with
  | @entered r budget enter =>
    have enters := twin.matches_enterNode comparable
    rw [enter] at enters
    obtain ⟨kind, r', ρ₁, enter', le, alike, -⟩ := enters.of_ok
    obtain rfl : kind = p'.kind := (enterNode_ok enter').1
    exact ⟨ρ₁, [], r', le, .entered (twin.budget ▸ budget) enter', alike, .nil⟩
  | @visited os r i v r₁ o r₂ before decided visit ih =>
    obtain ⟨ρ₁, os', r', le, progress', alike, all⟩ := ih
    obtain ⟨w, r₁', decided', ends⟩ :=
      twin.visit comparable reached reached' before progress' alike all below decided
    rw [visit] at ends
    obtain ⟨o', r₂', ρ₂, visit', le', alike', corresponds⟩ := ends.of_ok
    refine ⟨ρ₂, os' ++ [o'], r₂', le_trans le le', .visited progress' decided' visit', alike', ?_⟩
    exact List.rel_append (all.imp fun _ _ both => both.mono le') (.cons corresponds .nil)

/-- The rule of the one visit ends with an outcome that belongs together with the one that the rule
of the other ends with. -/
theorem Twin.exists_settles
    (below : ∀ {ρ₂ c c'}, c.budget < p.budget → Twin L base ρ₂ c c' → root.Reaches host c →
      root'.Reaches host c' → EndsAlike host L base root root' ρ₂ c c')
    {o : Outcome} (settled : p.Settles host o r) :
    ∃ ρ₁ o' r', ρ ≤ ρ₁ ∧ p'.Settles host o' r' ∧ r.Like L ρ₁ r' ∧
      Corresponds host L base root root' ρ₁ o o' := by
  obtain ⟨os, r₀, progress, decided⟩ := settled
  obtain ⟨ρ₁, os', r₀', le, progress', alike, all⟩ :=
    twin.exists_progress comparable reached reached' below progress
  have moves := twin.matches_next comparable reached reached' progress progress' alike all
  obtain decided | decided := decided
  · -- the outcome of the operand visited last is kept on both sides
    rw [decided] at moves
    obtain ⟨_, r', ρ₂, decided', le', alike', move⟩ := moves.of_ok
    cases move with
    | @keep _ o' outcomes =>
      refine ⟨ρ₂, o', r', le_trans le le', ⟨os', r₀', progress', .inl decided'⟩, alike', outcomes,
        fun e f raised raised' => ?_⟩
      have last := (Form.handsOn_of_keep decided raised).1
      have last' := (Form.handsOn_of_keep decided' raised').1
      exact ((Corresponds.getLast? all last last').mono le').accounts e f raised raised'
  · -- both rules make an outcome of their own, so it is produced here
    rw [decided] at moves
    obtain ⟨_, r', ρ₂, decided', le', alike', move⟩ := moves.of_ok
    have produces {e : Value} (raised : o.result = .raised e) : p.Produces host o e r :=
      twin.first.sound.produces comparable.keepsTrees progress decided raised
    cases move with
    | @finish _ o' outcomes =>
      refine ⟨ρ₂, o', r', le_trans le le', ⟨os', r₀', progress', .inr decided'⟩, alike',
        .like outcomes, fun e f raised raised' => ⟨p, p', r, r', reached, reached', twin.nodes,
          produces raised,
          twin.second.sound.produces comparable.keepsTrees progress' decided' raised', .inl ?_⟩⟩
      have results := outcomes.result
      rw [raised, raised'] at results
      cases results with
      | raised like => exact like
    | @secret _ o' swapped outcomes =>
      exact ⟨ρ₂, o', r', le_trans le le', ⟨os', r₀', progress', .inr decided'⟩, alike',
        outcomes, fun e f raised raised' => ⟨p, p', r, r', reached, reached', twin.nodes,
          produces raised,
          twin.second.sound.produces comparable.keepsTrees progress' decided' raised',
          .inr swapped⟩⟩

omit reached reached' in
/-- Twin visits whose rules have ended with outcomes that belong together are left in the same
way. -/
theorem Twin.matches_leaving {o o' : Outcome} (settled : p.Settles host o r)
    (settled' : p'.Settles host o' r') (le : ρ ≤ ρ₁) (alike : r.Like L ρ₁ r')
    (corresponds : Corresponds host L base root root' ρ₁ o o') :
    Matches (Run.Like L) ρ₁ (Corresponds host L base root root') (p.leaving host (.ok o, r))
      (p'.leaving host (.ok o', r')) := by
  have hk := comparable.keepsTrees
  have later := le_trans twin.first.le (settled.le twin.first.sound hk)
  have later' := le_trans twin.second.le (settled'.le twin.second.sound hk)
  have places := alike.world.store.twinPlaces comparable.twins twin.nodes later'
    twin.first.tree.whole.made twin.second.tree.whole.made
  have leaves := matches_leaveNode comparable.respects alike later later'
    (settled.push_eq twin.first.sound hk) (settled'.push_eq twin.second.sound hk)
    (twin.run.frame.mono le) (.inr ⟨_, _, rfl, rfl, twin.nodes⟩) places p.kind corresponds.twin
  rw [leaving, leaving, Work.runOn_bind, Work.runOn_bind, ← twin.kind comparable.twins]
  generalize (leaveNode host p.value p.kind o).runOn r = q at leaves
  generalize (leaveNode host p'.value p.kind o').runOn r' = q' at leaves
  obtain ⟨ρ₂, le', alike', ends⟩ := leaves
  obtain ⟨result, r₁⟩ := q
  obtain ⟨result', r₁'⟩ := q'
  cases ends with
  | error paired => exact ⟨ρ₂, le', alike', .error paired⟩
  | ok same => exact ⟨ρ₂, le', alike', .ok (corresponds.mono le')⟩

omit comparable twin reached reached' in
/-- Twin visits come to ends that belong together. -/
theorem Twin.endsAlike (comparable : Comparable host L base root root')
    (twin : p.Twin L base ρ p') (reached : root.Reaches host p) (reached' : root'.Reaches host p') :
    EndsAlike host L base root root' ρ p p' := by
  induction hb : p.budget using Nat.strongRecOn generalizing p p' ρ with
  | ind b ih =>
    have hk := comparable.keepsTrees
    have below : ∀ {ρ₂} {c c' : Position σ}, c.budget < p.budget → Twin L base ρ₂ c c' →
        root.Reaches host c → root'.Reaches host c' →
        EndsAlike host L base root root' ρ₂ c c' :=
      fun less twins reached reached' => ih _ (hb ▸ less) twins reached reached' rfl
    obtain ⟨e, r, enter, ending⟩ | ⟨q, ending, ends⟩ := ending_cases twin.first.sound hk
    · have enters := twin.matches_enterNode comparable
      rw [enter] at enters
      obtain ⟨e', r', ρ₁, enter', le, alike, paired⟩ := enters.of_error
      rw [EndsAlike, ending, ending_of_enter_error twin.second.sound enter']
      exact ⟨ρ₁, le, alike, .error paired⟩
    · rw [EndsAlike, ending]
      cases ends with
      | @settles o r settled =>
        obtain ⟨ρ₁, o', r', le, settled', alike, corresponds⟩ :=
          twin.exists_settles comparable reached reached' below settled
        rw [ending_of_ruleEnds twin.second.sound hk (.settles settled')]
        exact (twin.matches_leaving comparable settled settled' le alike corresponds).weaken le
      | @breaks os r₀ e r progress decided =>
        obtain ⟨ρ₁, os', r₀', le, progress', alike, all⟩ :=
          twin.exists_progress comparable reached reached' below progress
        have moves := twin.matches_next comparable reached reached' progress progress' alike all
        rw [decided] at moves
        obtain ⟨e', r', ρ₂, decided', le', alike', paired⟩ := moves.of_error
        rw [ending_of_ruleEnds twin.second.sound hk (.breaks progress' decided')]
        exact ⟨ρ₂, le_trans le le', alike', .error paired⟩
      | @breaksBelow os r₀ i v r₁ e r progress decided visit =>
        obtain ⟨ρ₁, os', r₀', le, progress', alike, all⟩ :=
          twin.exists_progress comparable reached reached' below progress
        obtain ⟨w, r₁', decided', ends⟩ :=
          twin.visit comparable reached reached' progress progress' alike all below decided
        rw [visit] at ends
        obtain ⟨e', r', ρ₂, visit', le', alike', paired⟩ := ends.of_error
        rw [ending_of_ruleEnds twin.second.sound hk (.breaksBelow progress' decided' visit')]
        exact ⟨ρ₂, le_trans le le', alike', .error paired⟩

end Lockstep

end Position

end Fallback
