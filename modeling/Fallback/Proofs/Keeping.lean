import Fallback.Proofs.Course
import Fallback.Proofs.Provenance

/-!
What an evaluation leaves of the things that are there.

Of what is there already an evaluation by itself changes the places of faults and nothing else: a
fault that awaits a place may get one. `Store.Ages` says this of a store and a later one, and
`Store.Keeps` that not even a place was attached. That the host keeps the nodes with the lines of
their places, the outcomes and the faults is an assumption about it, `Host.Keeps`; what happens
between entering and leaving a node then keeps them as well, and a whole evaluation lets them age.
-/
namespace Fallback

open Relation (ReflTransGen)

variable {σ : Type} {host : Host σ}

/-! ## Stores that last and faults that age -/

namespace Store

/-- The fault or the outcome that a value refers to is there. -/
def Has (s : Store) : Value → Prop
  | .fault e => e.index < s.faults.size
  | .outcome o => o.index < s.outcomes.size
  | _ => True

/-- The place of a node tells a line. -/
def HasLine (s : Store) (n : NodeRef) : Bool :=
  (s.line? (s.placeOf (.node n))).isSome

/-- The node was made, and what its place refers to is there. -/
structure IsPlaced (s : Store) (n : NodeRef) : Prop where
  made : n.index < s.nodes.size
  place : s.Has (s.placeOf (.node n))

/-- What lasts has lasted, nodes tell a line if they did, and outcomes have the results that they
had. -/
structure Retains (s t : Store) : Prop where
  le : s ≤ t
  line {n : NodeRef} (placed : s.IsPlaced n) : t.HasLine n = s.HasLine n
  outcome {o : OutcomeRef} (made : o.index < s.outcomes.size) :
    o.index < t.outcomes.size ∧ (t.outcome o).result = (s.outcome o).result

/-- Faults are what they were, besides. -/
structure Keeps (s t : Store) : Prop extends s.Retains t where
  fault {e : FaultRef} (made : e.index < s.faults.size) : t.fault e = s.fault e

end Store

/-- The second fault is the first, or the first with a place where it awaited one. -/
def Fault.Ages (e f : Fault) : Prop :=
  ∃ place, f = { e with place } ∧ (place = e.place ∨ e.awaitsPlace = true)

/-- Faults are what they were, unless they got a place that they awaited. -/
structure Store.Ages (s t : Store) : Prop extends s.Retains t where
  fault {e : FaultRef} (made : e.index < s.faults.size) : (s.fault e).Ages (t.fault e)

namespace Fault.Ages

variable {e f g : Fault}

theorem refl (e : Fault) : e.Ages e :=
  ⟨e.place, rfl, .inl rfl⟩

theorem eq_of_settled (h : e.Ages f) (settled : e.awaitsPlace = false) : f = e := by
  obtain ⟨place, rfl, rfl | awaits⟩ := h
  · rfl
  · rw [settled] at awaits
    cases awaits

theorem trans (h : e.Ages f) (k : f.Ages g) : e.Ages g := by
  cases awaits : e.awaitsPlace with
  | false => exact h.eq_of_settled awaits ▸ k
  | true =>
    obtain ⟨place, rfl, -⟩ := h
    obtain ⟨place', rfl, -⟩ := k
    exact ⟨place', rfl, .inr awaits⟩

/-- A fault that awaits no place will never do. -/
theorem settled (h : e.Ages f) (settled : e.awaitsPlace = false) : f.awaitsPlace = false := by
  rw [h.eq_of_settled settled, settled]

theorem kind_eq (h : e.Ages f) : f.kind = e.kind := by
  obtain ⟨place, rfl, -⟩ := h
  rfl

theorem args_eq (h : e.Ages f) : f.args = e.args := by
  obtain ⟨place, rfl, -⟩ := h
  rfl

theorem extras_eq (h : e.Ages f) : f.extras = e.extras := by
  obtain ⟨place, rfl, -⟩ := h
  rfl

theorem cause?_eq (h : e.Ages f) : f.cause? = e.cause? := by
  rw [cause?, cause?, h.extras_eq]

end Fault.Ages

namespace Store

variable {s t u : Store}

namespace Retains

theorem refl (s : Store) : s.Retains s :=
  ⟨le_refl s, fun _ => rfl, fun made => ⟨made, rfl⟩⟩

theorem has (h : s.Retains t) {v : Value} (there : s.Has v) : t.Has v := by
  cases v with
  | fault e => exact (h.le.kind there).1
  | outcome o => exact (h.outcome there).1
  | _ => trivial

theorem placeOf_eq (h : s.Retains t) {n : NodeRef} (made : n.index < s.nodes.size) :
    t.placeOf (.node n) = s.placeOf (.node n) :=
  congrArg (fun c : Node => (Environment.get? c.attributes placeName).getD .null)
    (h.le.node made).2

theorem isPlaced (h : s.Retains t) {n : NodeRef} (placed : s.IsPlaced n) : t.IsPlaced n :=
  ⟨(h.le.node placed.made).1, h.placeOf_eq placed.made ▸ h.has placed.place⟩

theorem trans (h : s.Retains t) (k : t.Retains u) : s.Retains u := by
  refine ⟨le_trans h.le k.le, fun placed => ?_, fun made => ?_⟩
  · exact (k.line (h.isPlaced placed)).trans (h.line placed)
  · obtain ⟨made', same⟩ := h.outcome made
    exact ⟨(k.outcome made').1, (k.outcome made').2.trans same⟩

/-- What a value tells is still told, provided that neither things nor what was said of the faults
and outcomes that are there have changed. -/
theorem of_eq (le : s ≤ t) (nodes : t.nodes = s.nodes)
    (outcome : ∀ {o : OutcomeRef}, o.index < s.outcomes.size →
      o.index < t.outcomes.size ∧ (t.outcome o).result = (s.outcome o).result)
    (line : ∀ {v : Value}, s.Has v → t.line? v = s.line? v) : s.Retains t := by
  refine ⟨le, fun {n} placed => ?_, outcome⟩
  have same : t.placeOf (.node n) = s.placeOf (.node n) := by
    rw [placeOf, placeOf, attribute?, attribute?, attributes, attributes, node, node, nodes]
  rw [HasLine, HasLine, same, line placed.place]

end Retains

namespace Keeps

theorem refl (s : Store) : s.Keeps s :=
  ⟨.refl s, fun _ => rfl⟩

theorem trans (h : s.Keeps t) (k : t.Keeps u) : s.Keeps u :=
  ⟨h.toRetains.trans k.toRetains, fun made =>
    (k.fault (h.le.kind made).1).trans (h.fault made)⟩

theorem ages (h : s.Keeps t) : s.Ages t :=
  ⟨h.toRetains, fun made => h.fault made ▸ .refl _⟩

end Keeps

namespace Ages

theorem trans (h : s.Ages t) (k : t.Ages u) : s.Ages u :=
  ⟨h.toRetains.trans k.toRetains, fun made => (h.fault made).trans (k.fault (h.le.kind made).1)⟩

end Ages

/-! ## Changes keep things -/

theorem Change.keeps (h : s.Change t) : s.Keeps t := by
  cases h with
  | stamp | item | invocation =>
    exact ⟨.of_eq (Change.le (by constructor)) rfl (fun made => ⟨made, rfl⟩)
      fun {v} _ => by cases v <;> rfl, fun _ => rfl⟩
  | fault e =>
    refine ⟨.of_eq (Change.fault e).le rfl (fun made => ⟨made, rfl⟩) fun {v} there => ?_,
      fun made => fault_addFault_of_lt e made⟩
    cases v with
    | fault x =>
      show Option.filter _ (Environment.get? ((s.addFault e).2.fault x).attributes lineName) = _
      rw [fault_addFault_of_lt e there]
      rfl
    | _ => rfl
  | outcome r =>
    refine ⟨.of_eq (Change.outcome r).le rfl
      (fun {o} made => ⟨?_, congrArg _ (outcome_addOutcome_of_lt r made)⟩)
      fun {v} there => ?_, fun _ => rfl⟩
    · show o.index < (s.outcomes.push _).size
      rw [Array.size_push]
      exact Nat.lt_succ_of_lt made
    · cases v with
      | outcome o =>
        show Option.filter _ (Environment.get? ((s.addOutcome r).2.outcome o).attributes lineName)
          = _
        rw [outcome_addOutcome_of_lt r there]
        rfl
      | _ => rfl

theorem keeps_of_changes (h : ReflTransGen Change s t) : s.Keeps t := by
  induction h with
  | refl => exact .refl _
  | tail _ step ih => exact ih.trans step.keeps

/-- A place is no line. -/
theorem line?_locate (s : Store) (e : FaultRef) (place v : Value) :
    (s.locate e place).line? v = s.line? v := by
  cases v with
  | fault x =>
    show Option.filter _ (Environment.get? ((s.locate e place).fault x).attributes lineName) =
      Option.filter _ (Environment.get? (s.fault x).attributes lineName)
    obtain rfl | ne := eq_or_ne x e
    · by_cases made : x.index < s.faults.size
      · rw [fault_locate_self place made]
        have skips (f : Fault) : Environment.get? f.attributes lineName =
            Environment.get? f.extras lineName := by
          rw [Fault.attributes]
          cases f.kind.hasPlace <;> rfl
        rw [skips, skips]
      · rw [locate_of_le place (Nat.le_of_not_lt made)]
    · rw [fault_locate_of_ne s place ne]
  | _ => rfl

/-- Attaching a place lets the fault age that awaits it. -/
theorem ages_attachPlace (s : Store) (v : Value) (o : Outcome) : s.Ages (s.attachPlace v o) := by
  unfold attachPlace
  split
  · next e _ =>
    dsimp only
    split
    · next waits =>
      refine ⟨.of_eq (le_locate _ _ _) rfl (fun made => ⟨made, rfl⟩)
        fun _ => line?_locate _ _ _ _, fun {x} made => ?_⟩
      obtain rfl | ne := eq_or_ne x e
      · rw [fault_locate_self _ made]
        exact ⟨_, rfl, .inr (Bool.and_eq_true_iff.1 waits).1⟩
      · rw [fault_locate_of_ne _ _ ne]
        exact .refl _
    · exact (Keeps.refl s).ages
  · exact (Keeps.refl s).ages

end Store

/-! ## Evaluations keep things -/

/-- The host keeps the nodes with the lines of their places, the outcomes and the faults. -/
structure Host.Keeps (host : Host σ) : Prop where
  run (r : RoutineRef) (args : List Value) (w : World σ) :
    w.store.Keeps (host.run r args w).2.store
  truth (o : ObjectRef) (w : World σ) : w.store.Keeps (host.truth o w).2.store

theorem Host.Keeps.keepsTrees (hk : host.Keeps) : host.KeepsTrees :=
  ⟨fun r args w => (hk.run r args w).le, fun o w => (hk.truth o w).le⟩

namespace Run

variable {r r' : Run σ}

theorem Quiet.keeps (h : r.Quiet host r') (hk : host.Keeps) :
    r.world.store.Keeps r'.world.store := by
  cases h with
  | change h =>
    cases h with
    | world h =>
      cases h with
      | store h => exact h.keeps
      | run f args => exact hk.run f args _
      | truth o => exact hk.truth o _
    | log record => exact .refl _
  | frame | enter | exit => exact .refl _

theorem keeps_of_quiet (h : ReflTransGen (Run.Quiet host) r r') (hk : host.Keeps) :
    r.world.store.Keeps r'.world.store := by
  induction h with
  | refl => exact .refl _
  | tail _ step ih => exact ih.trans (step.keeps hk)

theorem keeps_of_changes (h : ReflTransGen (Run.Change host) r r') (hk : host.Keeps) :
    r.world.store.Keeps r'.world.store :=
  keeps_of_quiet (ReflTransGen.mono (fun _ _ step => .change step) _ _ h) hk

/-- What is there ages while an evaluation goes on. -/
theorem Leads.ages (h : r.Leads host r') (hk : host.Keeps) :
    r.world.store.Ages r'.world.store := by
  induction h with
  | refl => exact (Store.Keeps.refl _).ages
  | tail _ step ih =>
    refine ih.trans ?_
    cases step with
    | quiet h => exact (h.keeps hk).ages
    | place v o => exact Store.ages_attachPlace _ v o

end Run

/-- What is there is kept by work that makes nothing but changes. -/
theorem Work.Makes.keeps {α : Type} {x : Act σ α} (hx : x.Makes (Change host)) (hk : host.Keeps)
    (w : World σ) : w.store.Keeps (x.runOn w).2.store := by
  have changes := hx w
  generalize (x.runOn w).2 = w' at changes
  induction changes with
  | refl => exact .refl _
  | tail _ step ih =>
    refine ih.trans ?_
    cases step with
    | store h => exact h.keeps
    | run f args => exact hk.run f args _
    | truth o => exact hk.truth o _

namespace Position

variable {p : Position σ} {os : List Outcome} {m : Except FaultRef Move} {r r₁ : Run σ}

theorem leads_end (host : Host σ) (p : Position σ) : p.run.Leads host (p.ending host).2 :=
  ending_leads rfl

/-- What lasts has lasted when an evaluation ends. -/
theorem le_evaluate (hk : host.KeepsTrees) (q : Request) (root : NodeRef) (w : World σ) :
    w.store ≤ ((evaluate host q (.node root)).runOn w).2.store :=
  (leads_end host (start q root w)).le hk

/-- A visit comes to its end from any decision of its rule. -/
theorem Progress.decided_leads (h : p.Progress host os r) (sound : p.IsSound)
    (hk : host.KeepsTrees) (decided : (p.form.next host os).runOn r = (m, r₁)) :
    r₁.Leads host (p.ending host).2 := by
  have settled {o : Outcome} (h : p.Settles host o r₁) : r₁.Leads host (p.ending host).2 := by
    rw [ending_of_ruleEnds sound hk (.settles h)]
    exact ((steps_leaveNode _ _ o).bind fun _ => Work.makes_pure o) r₁
  rcases m with e | ⟨i, v⟩ | o | o
  · rw [ending_of_ruleEnds sound hk (.breaks h decided)]
    exact .refl
  · obtain ⟨c, rfl, child, csound, rfl, -⟩ := h.child sound hk decided
    exact (leads_end host c).trans (Reaches.leads_ending (.single ⟨i, child⟩) sound hk)
  · exact settled ⟨os, r, h, .inl decided⟩
  · exact settled ⟨os, r, h, .inr decided⟩

/-- A visit comes to its end from where the visit to an operand has ended. -/
theorem Progress.visit_leads (h : p.Progress host os r) (sound : p.IsSound) (hk : host.KeepsTrees)
    {i : Nat} {v : Value} (decided : (p.form.next host os).runOn r = (.ok (.visit i v), r₁)) :
    ((evalNode host (p.budget - 1) v).runOn r₁).2.Leads host (p.ending host).2 := by
  rcases visit : (evalNode host (p.budget - 1) v).runOn r₁ with ⟨e | o, r₂⟩
  · rw [ending_of_ruleEnds sound hk (.breaksBelow h decided visit)]
    exact .refl
  · exact (Progress.visited h decided visit).leads_ending sound hk

end Position

end Fallback
