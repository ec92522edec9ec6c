import Mathlib
import Fallback.Proofs.Equivalence
import Fallback.Proofs.Indifference
import Fallback.Proofs.Noninterference
import Fallback.Proofs.Respelling
import Fallback.Proofs.Verdict

/-!
Where things stand in the source does not steer anything.

One tree is evaluated in two worlds which differ in the places of nodes alone. Then the two
evaluations go the same way: `Position.Displaced` is the invariant of two visits, one to the node in
each world, and `Displaced.coincide` says that they come to the same end. With what lowering makes of
trees that differ only in marks (`Attempt.lowersAlike_of_unmarked`) this says that positions are
inert (`positions_inert`).

A fault may have a way of its own to be copied, and then it may be handed out itself instead of a
copy. Its place is attached to it then, and a later message may quote it (`not_positions_inert`).
Hence the assumption that no such fault is raised by a node that is visited.
-/
namespace Fallback

open Relation (ReflTransGen)

variable {σ α : Type} {host : Host σ} {L : Likeness σ} {ρ ρ₁ : Pairing} {base s t : Store}

/-! ## Trees without places -/

namespace Store

theorem isFit_unplaced (s : Store) (f : Form) : f.IsFit s.unplaced ↔ f.IsFit s := by
  cases f with
  | raise exception =>
    simp only [Form.IsFit, size_faults_unplaced, fault_unplaced]
    exact Iff.rfl
  | _ => exact Iff.rfl

theorem isWhole_unplaced (s : Store) (n : NodeRef) : s.unplaced.IsWhole n ↔ s.IsWhole n := by
  have made : n.index < s.unplaced.nodes.size ↔ n.index < s.nodes.size := by
    rw [unplaced, Array.size_map]
  constructor
  · rintro ⟨there, fit, operands⟩
    rw [form_unplaced] at fit operands
    exact ⟨made.1 there, (s.isFit_unplaced _).1 fit, operands⟩
  · rintro ⟨there, fit, operands⟩
    refine ⟨made.2 there, ?_, ?_⟩
    · rw [form_unplaced]
      exact (s.isFit_unplaced _).2 fit
    · rw [form_unplaced]
      exact operands

/-- Places have nothing to do with what a tree is. -/
theorem isTree_unplaced (s : Store) (n : NodeRef) : s.unplaced.IsTree n ↔ s.IsTree n := by
  have operands : s.unplaced.Operand = s.Operand := by
    funext n m
    rw [Operand, Operand, form_unplaced]
  rw [IsTree, IsTree, operands]
  exact forall_congr' fun m => imp_congr_right fun _ => s.isWhole_unplaced m

end Store

/-! ## Entering and leaving -/

/-- A place may be attached in each store to what an outcome raises, or in one of them. -/
theorem Store.Displaced.attachPlace {kept : NodeRef → Prop} (h : s.Displaced kept ρ t)
    (le : base ≤ s) (v : Value) {o : Outcome} (fits : o.Fits base ρ) :
    (s.attachPlace v o).Displaced kept ρ (t.attachPlace v o) := by
  obtain ⟨self, v' | e⟩ := o
  · exact h
  · obtain ⟨x, rfl, hidden | ⟨made, fixed⟩⟩ := fits
    · have left : (s.attachPlace v ⟨self, .raised (.fault x)⟩).Displaced kept ρ t := by
        simp only [Store.attachPlace]
        split
        · exact h.locate_left hidden _
        · exact h
      generalize s.attachPlace v ⟨self, .raised (.fault x)⟩ = u at left ⊢
      simp only [Store.attachPlace]
      split
      · exact left.locate_right hidden _
      · exact left
    · have first := (le.kind made).2
      have second := (h.kind x).trans first
      simp only [Store.attachPlace, Fault.awaitsPlace, first, second, fixed, Bool.false_and,
        Bool.false_eq_true, if_false]
      exact h

section Nodes

open Work

variable {r r' : Run σ} {f : Frame} (blind : host.IsBlind L) (displaced : r.Displaced L ρ r')
  (v : Value)
include blind displaced

/-- A node is entered in the same way, wherever it is placed. -/
theorem coincide_enterNode :
    Coincide (Run.Displaced L) ρ (Pairing.Ensures fun _ _ => True) ((enterNode host v).runOn r)
      ((enterNode host v).runOn r') := by
  rcases push : r.frame.push v with refusal | f
  · have refused : (enterNode host v).runOn r = (Eval.ofAttempt (Attempt.malformed
        (r.world.store.placeOf v) refusal.message) : Eval σ String).runOn r :=
      runOn_bind_error (runOn_openNode_of_refused push) _
    have refused' : (enterNode host v).runOn r' = (Eval.ofAttempt (Attempt.malformed
        (r'.world.store.placeOf v) refusal.message) : Eval σ String).runOn r' :=
      runOn_bind_error (runOn_openNode_of_refused (displaced.frame ▸ push)) _
    have same : (Attempt.faultAt r'.world.store .malformed (r'.world.store.placeOf v)
          refusal.message).unplaced =
        (Attempt.faultAt r.world.store .malformed (r.world.store.placeOf v)
          refusal.message).unplaced := by
      rw [Attempt.faultAt, Attempt.faultAt, displaced.world.store.nextStamp]
      rfl
    rw [refused, refused']
    exact ⟨congrArg Except.error displaced.world.store.nextFault, _, ρ.le_conceal _,
      displaced.withWorld (ρ.le_conceal _) (displaced.world.withStore (ρ.le_conceal _)
        (displaced.world.store.addStamp.addStamp.addHidden same)), trivial⟩
  · have known : f.Like ρ f := by
      obtain ⟨vars, debug, traced⟩ := Frame.settings_of_push push
      refine ⟨?_, rfl, ?_, rfl, rfl⟩
      · rw [vars]
        exact displaced.known.vars
      · rw [debug]
        exact displaced.known.debug
    rw [enterNode, runOn_bind_ok (runOn_openNode_of_push push),
      runOn_bind_ok (runOn_openNode_of_push (displaced.frame ▸ push)),
      runOn_bind_ok (Eval.runOn_store _), runOn_bind_ok (Eval.runOn_store _),
      displaced.world.store.typeName]
    have rest := (isSteady_debug (L := L) (ρ := ρ) blind fun f =>
      .enter (f.depth - 1) (r.world.store.typeName v)).bind
        (fun _ _ => (isSteady_observe fun t => t.enter v).bind
          (fun _ _ => .pure (R := Pairing.Ensures fun _ _ => True)
            (a := r.world.store.typeName v) fun _ => trivial) fun _ => trivial) fun _ => trivial
    exact rest (le_refl _) ⟨displaced.world, rfl, known⟩

/-- A node is left in the same way, wherever it is placed. -/
theorem coincide_leaveNode (le : base ≤ r.world.store) (push : f.push v = .ok r.frame)
    (known : f.Like ρ f) (kind : String) {o : Outcome} (fits : o.Fits base ρ) :
    Coincide (Run.Displaced L) ρ (Pairing.Ensures fun _ _ => True)
      ((leaveNode host v kind o).runOn r) ((leaveNode host v kind o).runOn r') := by
  have noted : (⟨r.frame, r.noted v o⟩ : Run σ).Displaced L ρ ⟨r'.frame, r'.noted v o⟩ := by
    refine ⟨⟨displaced.world.store.attachPlace le v fits, ?_, displaced.world.log,
      displaced.world.host, displaced.world.states⟩, displaced.frame, displaced.known⟩
    simp only [Run.noted, displaced.frame, displaced.world.trace]
  rw [runOn_leaveNode, runOn_leaveNode]
  refine (isSteady_debug blind _ (le_refl _) noted).bind
    (fun {ρ₁ u r₁ r₁'} le₁ ran ran' displaced' _ => ?_) fun _ => trivial
  have kept := Run.Change.frame_eq ((makes_debug _).of_run ran)
  have pop : r₁.frame.pop v = (.ok (), f) := kept ▸ Frame.pop_of_push push
  have pop' : r₁'.frame.pop v = (.ok (), f) := displaced'.frame ▸ pop
  rw [runOn_closeNode_of_pop pop, runOn_closeNode_of_pop pop']
  exact ⟨rfl, ρ₁, le_refl _, ⟨displaced'.world, rfl, known.mono le₁⟩, trivial⟩

end Nodes

/-! ## Visits -/

/-- What coincides with some end is the same end. -/
theorem Coincide.exists_eq {S : Type} {related : Pairing → S → S → Prop}
    {R : Pairing → Except FaultRef α → Prop} {result : Except FaultRef α} {u : S}
    {p' : Except FaultRef α × S} (h : Coincide related ρ R (result, u) p') :
    ∃ u' ρ₁, p' = (result, u') ∧ ρ ≤ ρ₁ ∧ related ρ₁ u u' ∧ R ρ₁ result := by
  obtain ⟨result', u'⟩ := p'
  obtain ⟨same, ρ₁, le, states, holds⟩ := h
  cases same
  exact ⟨u', ρ₁, rfl, le, states, holds⟩

theorem Coincide.exists_eq_right {S : Type} {related : Pairing → S → S → Prop}
    {R : Pairing → Except FaultRef α → Prop} {result : Except FaultRef α} {u' : S}
    {p : Except FaultRef α × S} (h : Coincide related ρ R p (result, u')) :
    ∃ u ρ₁, p = (result, u) ∧ ρ ≤ ρ₁ ∧ related ρ₁ u u' ∧ R ρ₁ result := by
  obtain ⟨result', u⟩ := p
  obtain ⟨same, ρ₁, le, states, holds⟩ := h
  cases same
  exact ⟨u, ρ₁, rfl, le, states, holds⟩

namespace Position

variable {p p' c c' : Position σ} {is : List Nat} {os : List Outcome} {r r' r₁ r₁' : Run σ}

/-- The visits are to one and the same node of a tree that was in a store before, in states that are
the same but for places. -/
structure Displaced (L : Likeness σ) (base : Store) (ρ : Pairing) (p p' : Position σ) : Prop where
  within : p.IsWithin base
  budget : p'.budget = p.budget
  node : p'.node = p.node
  run : p.run.Displaced L ρ p'.run

namespace Displaced

theorem isSound (h : p.Displaced L base ρ p') : p'.IsSound := by
  obtain ⟨⟨⟨tree, balanced, room⟩, -, -⟩, budget, node, run⟩ := h
  refine ⟨?_, run.frame ▸ balanced, ?_⟩
  · rw [node, ← Store.isTree_unplaced, run.world.store.same, Store.isTree_unplaced]
    exact tree
  · rw [run.frame, budget]
    exact room

theorem value (h : p.Displaced L base ρ p') : p'.value = p.value :=
  congrArg Value.node h.node

theorem form (h : p.Displaced L base ρ p') : p'.form = p.form := by
  rw [Position.form, Position.form, h.node, h.run.world.store.form]

theorem kind (h : p.Displaced L base ρ p') : p'.kind = p.kind := by
  rw [Position.kind, Position.kind, h.value, h.run.world.store.typeName]

/-- The two visits come to the same end. -/
def EndAlong (host : Host σ) (L : Likeness σ) (base : Store) (ρ : Pairing) (p p' : Position σ) :
    Prop :=
  Coincide (Run.Displaced L) ρ (Pairing.Ensures (Outcome.Fits base)) (p.ending host)
    (p'.ending host)

section Lockstep

variable (hk : host.KeepsTrees) (blind : host.IsBlind L) (h : p.Displaced L base ρ p')
  (plain : ∀ {c}, p.Reaches host c → ¬c.CopiesOwnWay host)

include blind h in
theorem coincide_enter :
    Coincide (Run.Displaced L) ρ (Pairing.Ensures fun _ _ => True)
      ((enterNode host p.value).runOn p.run) ((enterNode host p'.value).runOn p'.run) := by
  rw [h.value]
  exact coincide_enterNode blind h.run p.value

include hk blind h plain in
/-- The rules of visits that have come equally far make the same move. -/
theorem coincide_next (progress : p.Progress host os r) (displaced : r.Displaced L ρ₁ r')
    (all : ∀ o ∈ os, o.Fits base ρ₁) :
    Coincide (Run.Displaced L) ρ₁ (Pairing.Ensures (Move.Fits base))
      ((p.form.next host os).runOn r) ((p'.form.next host os).runOn r') := by
  have later := le_trans h.within.le (progress.push_eq h.within.sound hk).2
  have known := (displaced.world.store.closed.rest.node p.node).form.values
  have here : r.world.store.form p.node = p.form :=
    (Store.form_eq_of_le later h.within.tree.whole.made).trans h.within.form_eq.symm
  rw [Store.form] at here
  rw [here] at known
  rw [h.form]
  refine Fallback.coincide_next blind displaced later (h.within.form_eq ▸ h.within.tree.whole.fit)
    known all fun x raise own => ?_
  obtain rfl := progress.eq_nil_of_raise raise
  exact plain .refl ⟨x, r, raise, progress, own⟩

include hk h in
/-- An operand that both rules visit is visited in the same way. -/
theorem child (progress : p.Progress host os r) (progress' : p'.Progress host os r') {i : Nat}
    {v : Value} (decided : (p.form.next host os).runOn r = (.ok (.visit i v), r₁))
    (decided' : (p'.form.next host os).runOn r' = (.ok (.visit i v), r₁'))
    (moved : r₁.Displaced L ρ₁ r₁') :
    ∃ c c', v = c.value ∧ v = c'.value ∧ p.Child host i c ∧ p'.Child host i c' ∧ c.run = r₁ ∧
      c'.run = r₁' ∧ c.Displaced L base ρ₁ c' := by
  obtain ⟨c, rfl, child, -, rfl, -⟩ := progress.child h.within.sound hk decided
  obtain ⟨c', same, child', -, rfl, -⟩ := progress'.child h.isSound hk decided'
  refine ⟨c, c', rfl, same, child, child', rfl, rfl, h.within.child hk child, ?_,
    (Value.node.inj same).symm, moved⟩
  exact Nat.succ.inj (child'.budget.trans (h.budget.trans child.budget.symm))

variable (below : ∀ {ρ₂ c c'}, c.budget < p.budget → Displaced L base ρ₂ c c' →
  p.Reaches host c → EndAlong host L base ρ₂ c c')
include hk blind h plain below

/-- An operand that the one rule visits the other rule visits as well, and with the same end. -/
theorem visit (progress : p.Progress host os r) (progress' : p'.Progress host os r')
    (displaced : r.Displaced L ρ₁ r') (all : ∀ o ∈ os, o.Fits base ρ₁) {i : Nat} {v : Value}
    (decided : (p.form.next host os).runOn r = (.ok (.visit i v), r₁)) :
    ∃ r₁', (p'.form.next host os).runOn r' = (.ok (.visit i v), r₁') ∧
      Coincide (Run.Displaced L) ρ₁ (Pairing.Ensures (Outcome.Fits base))
        ((evalNode host (p.budget - 1) v).runOn r₁)
        ((evalNode host (p'.budget - 1) v).runOn r₁') := by
  have moves := h.coincide_next hk blind plain progress displaced all
  rw [decided] at moves
  obtain ⟨r₁', ρ₂, decided', le, moved, -⟩ := moves.exists_eq
  obtain ⟨c, c', rfl, same, child, child', rfl, rfl, along⟩ :=
    h.child hk progress progress' decided decided' moved
  have less : c.budget < p.budget := by
    have := child.budget
    omega
  have ends := below less along (.single ⟨i, child⟩)
  rw [EndAlong, ← child.ending_eq, ← child'.ending_eq, ← same] at ends
  exact ⟨_, decided', ends.weaken le⟩

/-- However far the one visit comes, the other comes as far with the same outcomes. -/
theorem exists_progress (progress : p.Progress host os r) :
    ∃ ρ₁ r', ρ ≤ ρ₁ ∧ p'.Progress host os r' ∧ r.Displaced L ρ₁ r' ∧
      ∀ o ∈ os, o.Fits base ρ₁ := by
  induction progress with
  | @entered r positive enter =>
    have enters := h.coincide_enter blind
    rw [enter, ← h.kind] at enters
    obtain ⟨r', ρ₁, enter', le, displaced, -⟩ := enters.exists_eq
    exact ⟨ρ₁, r', le, .entered (h.budget ▸ positive) enter', displaced,
      List.forall_mem_nil _⟩
  | @visited os r i v r₁ o r₂ before decided visited ih =>
    obtain ⟨ρ₁, r', le, progress', displaced, all⟩ := ih
    obtain ⟨r₁', decided', ends⟩ :=
      h.visit hk blind plain below before progress' displaced all decided
    rw [visited] at ends
    obtain ⟨r₂', ρ₂, visited', le', displaced', fits⟩ := ends.exists_eq
    refine ⟨ρ₂, r₂', le_trans le le', .visited progress' decided' visited', displaced',
      fun o' ho => ?_⟩
    obtain old | new := List.mem_append.1 ho
    · exact (all o' old).mono le'
    · exact List.mem_singleton.1 new ▸ fits

/-- The rule of the one visit ends with the outcome that the rule of the other ends with. -/
theorem exists_settles {o : Outcome} (settled : p.Settles host o r) :
    ∃ ρ₁ r', ρ ≤ ρ₁ ∧ p'.Settles host o r' ∧ r.Displaced L ρ₁ r' ∧ o.Fits base ρ₁ := by
  obtain ⟨os, r₀, progress, decided⟩ := settled
  obtain ⟨ρ₁, r₀', le, progress', displaced, all⟩ :=
    h.exists_progress hk blind plain below progress
  have moves := h.coincide_next hk blind plain progress displaced all
  obtain decided | decided := decided <;> rw [decided] at moves
  · obtain ⟨r', ρ₂, decided', le', displaced', fits⟩ := moves.exists_eq
    exact ⟨ρ₂, r', le_trans le le', ⟨os, r₀', progress', .inl decided'⟩, displaced', fits⟩
  · obtain ⟨r', ρ₂, decided', le', displaced', fits⟩ := moves.exists_eq
    exact ⟨ρ₂, r', le_trans le le', ⟨os, r₀', progress', .inr decided'⟩, displaced', fits⟩

omit plain below in
/-- Visits whose rules have ended with the same outcome are left in the same way. -/
theorem coincide_leaving {o : Outcome} (settled : p.Settles host o r) (le : ρ ≤ ρ₁)
    (displaced : r.Displaced L ρ₁ r') (fits : o.Fits base ρ₁) :
    Coincide (Run.Displaced L) ρ₁ (Pairing.Ensures (Outcome.Fits base))
      (p.leaving host (.ok o, r)) (p'.leaving host (.ok o, r')) := by
  have later := le_trans h.within.le (settled.le h.within.sound hk)
  have leaves := coincide_leaveNode blind displaced p.value later
    (settled.push_eq h.within.sound hk) (h.run.known.mono le) p.kind fits
  rw [leaving, leaving, h.value, h.kind]
  exact leaves.bind (fun le' _ _ displaced' _ =>
    ⟨rfl, _, le_refl _, displaced', fits.mono le'⟩) fun _ => trivial

end Lockstep

/-- Visits to one node come to the same end, wherever the nodes are placed. -/
theorem coincide (hk : host.KeepsTrees) (blind : host.IsBlind L) (h : p.Displaced L base ρ p')
    (plain : ∀ {c}, p.Reaches host c → ¬c.CopiesOwnWay host) : EndAlong host L base ρ p p' := by
  induction hb : p.budget using Nat.strongRecOn generalizing p p' ρ with
  | ind b ih =>
    have below : ∀ {ρ₂} {c c' : Position σ}, c.budget < p.budget → Displaced L base ρ₂ c c' →
        p.Reaches host c → EndAlong host L base ρ₂ c c' :=
      fun less along reached => ih _ (hb ▸ less) along (fun on => plain (reached.trans on)) rfl
    obtain ⟨e, r, enter, ending⟩ | ⟨q, ending, ends⟩ := ending_cases h.within.sound hk
    · have enters := h.coincide_enter blind
      rw [enter] at enters
      obtain ⟨r', ρ₁, enter', le, displaced, -⟩ := enters.exists_eq
      rw [EndAlong, ending, ending_of_enter_error h.isSound enter']
      exact ⟨rfl, ρ₁, le, displaced, trivial⟩
    · rw [EndAlong, ending]
      cases ends with
      | @settles o r settled =>
        obtain ⟨ρ₁, r', le, settled', displaced, fits⟩ :=
          h.exists_settles hk blind plain below settled
        rw [ending_of_ruleEnds h.isSound hk (.settles settled')]
        exact (h.coincide_leaving hk blind settled le displaced fits).weaken le
      | @breaks os r₀ e r progress decided =>
        obtain ⟨ρ₁, r₀', le, progress', displaced, all⟩ :=
          h.exists_progress hk blind plain below progress
        have moves := h.coincide_next hk blind plain progress displaced all
        rw [decided] at moves
        obtain ⟨r', ρ₂, decided', le', displaced', -⟩ := moves.exists_eq
        rw [ending_of_ruleEnds h.isSound hk (.breaks progress' decided')]
        exact ⟨rfl, ρ₂, le_trans le le', displaced', trivial⟩
      | @breaksBelow os r₀ i v r₁ e r progress decided visited =>
        obtain ⟨ρ₁, r₀', le, progress', displaced, all⟩ :=
          h.exists_progress hk blind plain below progress
        obtain ⟨r₁', decided', ends⟩ :=
          h.visit hk blind plain below progress progress' displaced all decided
        rw [visited] at ends
        obtain ⟨r', ρ₂, visited', le', displaced', -⟩ := ends.exists_eq
        rw [ending_of_ruleEnds h.isSound hk (.breaksBelow progress' decided' visited')]
        exact ⟨rfl, ρ₂, le_trans le le', displaced', trivial⟩

/-! ### The nodes that are entered -/

section Ways

variable (hk : host.KeepsTrees) (blind : host.IsBlind L) (h : p.Displaced L base ρ p')
  (plain : ∀ {c}, p.Reaches host c → ¬c.CopiesOwnWay host)
include hk blind h plain

theorem alongside (progress : p.Progress host os r) :
    ∃ ρ₁ r', p'.Progress host os r' ∧ r.Displaced L ρ₁ r' ∧ ∀ o ∈ os, o.Fits base ρ₁ := by
  obtain ⟨ρ₁, r', -, done⟩ := h.exists_progress hk blind plain
    (fun _ along reached => along.coincide hk blind fun on => plain (reached.trans on)) progress
  exact ⟨ρ₁, r', done⟩

/-- However far the other visit comes, the one comes as far. -/
theorem alongside' (progress : p'.Progress host os r') :
    ∃ ρ₁ r, p.Progress host os r ∧ r.Displaced L ρ₁ r' ∧ ∀ o ∈ os, o.Fits base ρ₁ := by
  induction progress with
  | @entered r' positive enter =>
    have enters := h.coincide_enter blind
    rw [enter, h.kind] at enters
    obtain ⟨r, ρ₁, enter', -, displaced, -⟩ := enters.exists_eq_right
    exact ⟨ρ₁, r, .entered (h.budget ▸ positive) enter', displaced, List.forall_mem_nil _⟩
  | @visited os r' i v r₁' o r₂' before decided visited ih =>
    obtain ⟨ρ₁, r, progress, displaced, all⟩ := ih
    have moves := h.coincide_next hk blind plain progress displaced all
    rw [decided] at moves
    obtain ⟨r₁, ρ₂, decided', le, moved, -⟩ := moves.exists_eq_right
    obtain ⟨c, c', rfl, same, child, child', rfl, rfl, along⟩ :=
      h.child hk progress before decided' decided moved
    have ends := along.coincide hk blind fun on => plain (.head ⟨i, child⟩ on)
    rw [EndAlong, ← child.ending_eq, ← child'.ending_eq, ← same, visited] at ends
    obtain ⟨r₂, ρ₃, visited', le', displaced', fits⟩ := ends.exists_eq_right
    refine ⟨ρ₃, r₂, .visited progress decided' visited', displaced', fun o' ho => ?_⟩
    obtain old | new := List.mem_append.1 ho
    · exact (all o' old).mono (le_trans le le')
    · exact List.mem_singleton.1 new ▸ fits

/-- Visits that come equally far make visits below that are displaced. -/
theorem visits (visits : p.Visits host os c) :
    ∃ ρ₁ c', p'.Visits host os c' ∧ c.Displaced L base ρ₁ c' := by
  obtain ⟨r, slot, progress, decided⟩ := visits.decided
  obtain ⟨ρ₁, r', progress', displaced, all⟩ := h.alongside hk blind plain progress
  have moves := h.coincide_next hk blind plain progress displaced all
  rw [decided] at moves
  obtain ⟨r₁', ρ₂, decided', -, moved, -⟩ := moves.exists_eq
  obtain ⟨d, d', same, same', child, child', run, run', along⟩ :=
    h.child hk progress progress' decided decided' moved
  obtain rfl : c = d := visits.unique ⟨child.budget, r, slot, progress, by
    rw [decided, same, run]⟩ rfl
  exact ⟨ρ₂, d', ⟨child'.budget, r', slot, progress', by rw [decided', same', run']⟩, along⟩

theorem visits' (visits : p'.Visits host os c') :
    ∃ ρ₁ c, p.Visits host os c ∧ c.Displaced L base ρ₁ c' := by
  obtain ⟨r', slot, progress', decided'⟩ := visits.decided
  obtain ⟨ρ₁, r, progress, displaced, all⟩ := h.alongside' hk blind plain progress'
  have moves := h.coincide_next hk blind plain progress displaced all
  rw [decided'] at moves
  obtain ⟨r₁, ρ₂, decided, -, moved, -⟩ := moves.exists_eq_right
  obtain ⟨d, d', same, same', child, child', run, run', along⟩ :=
    h.child hk progress progress' decided decided' moved
  obtain rfl : c' = d' := visits.unique ⟨child'.budget, r', slot, progress', by
    rw [decided', same', run']⟩ rfl
  exact ⟨ρ₂, d, ⟨child.budget, r, slot, progress, by rw [decided, same, run]⟩, along⟩

/-- Every way of the one visit is a way of the other, and leads to the same node. -/
theorem way (way : p.Way host is c) : ∃ ρ₁ c', p'.Way host is c' ∧ c.Displaced L base ρ₁ c' := by
  induction way generalizing ρ p' with
  | here => exact ⟨ρ, p', .here p', h⟩
  | down visits _ ih =>
    obtain ⟨ρ₁, d', visits', along⟩ := h.visits hk blind plain visits
    obtain ⟨ρ₂, c', below, along'⟩ := ih along fun on => plain (visits.reaches.trans on)
    exact ⟨ρ₂, c', .down visits' below, along'⟩

theorem way' (way : p'.Way host is c') : ∃ ρ₁ c, p.Way host is c ∧ c.Displaced L base ρ₁ c' := by
  induction way generalizing ρ p with
  | here => exact ⟨ρ, p, .here p, h⟩
  | down visits' _ ih =>
    obtain ⟨ρ₁, d, visits, along⟩ := h.visits' hk blind plain visits'
    obtain ⟨ρ₂, c, below, along'⟩ := ih along fun on => plain (visits.reaches.trans on)
    exact ⟨ρ₂, c, .down visits below, along'⟩

/-- Both visits enter their node or none does. -/
theorem isEntered_iff : p.IsEntered host ↔ p'.IsEntered host := by
  constructor
  · rintro ⟨r, progress⟩
    obtain ⟨ρ₁, r', progress', -⟩ := h.alongside hk blind plain progress
    exact ⟨r', progress'⟩
  · rintro ⟨r', progress'⟩
    obtain ⟨ρ₁, r, progress, -⟩ := h.alongside' hk blind plain progress'
    exact ⟨r, progress⟩

end Ways

end Displaced

/-- The two visits enter the same nodes, below them as well, on the same ways and therefore in the
same order. -/
structure EnterAlike (host : Host σ) (p p' : Position σ) : Prop where
  forth {is : List Nat} {c : Position σ} (way : p.Way host is c) (entered : c.IsEntered host) :
    ∃ c', p'.Way host is c' ∧ c'.IsEntered host ∧ c'.node = c.node
  back {is : List Nat} {c' : Position σ} (way : p'.Way host is c') (entered : c'.IsEntered host) :
    ∃ c, p.Way host is c ∧ c.IsEntered host ∧ c'.node = c.node

end Position

/-! ## The whole evaluation -/

/-- The world without the places of nodes and faults. -/
def World.unplaced (w : World σ) : World σ :=
  { w with store := w.store.unplaced }

/-- The second world is the first with other places of nodes, but for the places that the host may
look at. -/
structure World.Resites (L : Likeness σ) (w w' : World σ) : Prop where
  same : w'.unplaced = w.unplaced
  faults : w'.store.faults = w.store.faults
  kept {n : NodeRef} (h : L.Keeps n) : w'.store.node n = w.store.node n

theorem World.Resites.displaced {w w' : World σ} (h : w.Resites L w')
    (alike : w.Like L (.identity w.store) w) : w.Displaced L (.identity w.store) w' := by
  refine ⟨⟨alike.store, (congrArg World.store h.same :), fun {x y} paired => ?_, h.kept⟩,
    (congrArg World.trace h.same :), (congrArg World.log h.same :),
    (congrArg World.host h.same :), alike.host⟩
  obtain ⟨rfl, -⟩ := paired
  rw [Store.fault, Store.fault, h.faults]

/-- In both worlds the same nodes are entered in the same order, and the request ends with the same
outcome or is broken off by the same fault. The worlds that are left differ in places alone, so a
fault is equivalent to what it is in the other world. -/
structure Request.EndsAlike (host : Host σ) (q : Request) (n : NodeRef) (w w' : World σ) : Prop where
  entered : (Position.start q n w).EnterAlike host (.start q n w')
  result : ((evaluate host q (.node n)).runOn w').1 = ((evaluate host q (.node n)).runOn w).1
  world : ((evaluate host q (.node n)).runOn w').2.unplaced =
    ((evaluate host q (.node n)).runOn w).2.unplaced
  equivalent {s t : Store} {x : FaultRef} {items : List Value} {stamp : Nat}
    (first : s = ((evaluate host q (.node n)).runOn w).2.store)
    (second : t = ((evaluate host q (.node n)).runOn w').2.store)
    (args : (s.fault x).args = .tuple items stamp) :
    (t.addFault (s.fault x)).2.areEquivalent (.fault (t.addFault (s.fault x)).1) (.fault x) =
      .ok true

end Fallback
