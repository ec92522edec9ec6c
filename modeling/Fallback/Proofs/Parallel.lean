import Fallback.Proofs.Answer
import Fallback.Proofs.Change

/-!
Work that goes the same way in like stores.

`Work.Parallel` relates two pieces of work: from like states they lead to like states, and both have
results that belong together, or both are broken off by faults that do. The pairing may grow on the
way, and what has been paired stays so; therefore the relation speaks of all later pairings, and
there is one law for every way of putting work together. The first section says what making,
changing and hiding a thing does to the likeness of two stores, and the last one that every attempt
of an evaluation is parallel to itself, for like arguments.
-/
namespace Fallback

open List (Forall₂)

variable {ρ ρ' ρ₁ : Pairing} {s t : Store}

/-! ## Changes of like stores -/

namespace Store

theorem size_locate (s : Store) (x : FaultRef) (place : Value) :
    (s.locate x place).faults.size = s.faults.size := by
  simp [locate, setFault]

theorem size_addOutcome (s : Store) (r : Result) :
    (s.addOutcome r).2.outcomes.size = s.outcomes.size + 1 :=
  Array.size_push _

theorem size_addFault (s : Store) (e : Fault) :
    (s.addFault e).2.faults.size = s.faults.size + 1 :=
  Array.size_push _

namespace FaultsLike

/-- Like faults that are made on both sides belong together. -/
theorem addFault (h : s.FaultsLike ρ t) {e f : Fault} (like : e.Like ρ f) :
    (s.addFault e).2.FaultsLike (ρ.pair ⟨s.faults.size⟩ ⟨t.faults.size⟩) (t.addFault f).2 := by
  have le := ρ.le_pair ⟨s.faults.size⟩ ⟨t.faults.size⟩
  refine ⟨?_, ?_, ?_, ?_, ?_⟩
  · intro x y paired
    rw [size_addFault, size_addFault]
    obtain old | ⟨rfl, rfl⟩ := paired
    · obtain ⟨hx, hy⟩ := h.made old
      exact ⟨Nat.lt_succ_of_lt hx, Nat.lt_succ_of_lt hy⟩
    · exact ⟨Nat.lt_succ_self _, Nat.lt_succ_self _⟩
  · intro x y paired
    obtain old | ⟨rfl, rfl⟩ := paired
    · obtain ⟨hx, hy⟩ := h.made old
      rw [fault_addFault_of_lt _ hx, fault_addFault_of_lt _ hy]
      exact (h.like old).mono le
    · have first := fault_addFault_self s e
      have second := fault_addFault_self t f
      rw [Store.addFault] at first second
      rw [Store.addFault, Store.addFault, first, second]
      exact like.mono le
  · intro x y x' y' paired paired'
    obtain old | ⟨rfl, rfl⟩ := paired <;> obtain old' | ⟨rfl, rfl⟩ := paired'
    · exact h.unique old old'
    · obtain ⟨hx, hy⟩ := h.made old
      exact ⟨fun same => absurd (same ▸ hx) (Nat.lt_irrefl _),
        fun same => absurd (same ▸ hy) (Nat.lt_irrefl _)⟩
    · obtain ⟨hx, hy⟩ := h.made old'
      exact ⟨fun same => absurd (same ▸ hx) (Nat.lt_irrefl _),
        fun same => absurd (same ▸ hy) (Nat.lt_irrefl _)⟩
    · exact ⟨fun _ => rfl, fun _ => rfl⟩
  · intro x hidden
    obtain ⟨hx, alone⟩ := h.hidden hidden
    rw [size_addFault]
    refine ⟨Nat.lt_succ_of_lt hx, fun y paired => ?_⟩
    obtain old | ⟨rfl, rfl⟩ := paired
    · exact alone y old
    · exact Nat.lt_irrefl _ hx
  · intro y hidden
    obtain ⟨hy, alone⟩ := h.hidden' hidden
    rw [size_addFault]
    refine ⟨Nat.lt_succ_of_lt hy, fun x paired => ?_⟩
    obtain old | ⟨rfl, rfl⟩ := paired
    · exact alone x old
    · exact Nat.lt_irrefl _ hy

/-- A fault that is made in the first store alone may be hidden. -/
theorem hide (h : s.FaultsLike ρ t) (e : Fault) :
    (s.addFault e).2.FaultsLike (ρ.hide ⟨s.faults.size⟩) t := by
  have le := ρ.le_hide ⟨s.faults.size⟩
  refine ⟨?_, ?_, h.unique, ?_, h.hidden'⟩
  · intro x y paired
    obtain ⟨hx, hy⟩ := h.made paired
    rw [size_addFault]
    exact ⟨Nat.lt_succ_of_lt hx, hy⟩
  · intro x y paired
    rw [fault_addFault_of_lt _ (h.made paired).1]
    exact (h.like paired).mono le
  · intro x hidden
    rw [size_addFault]
    obtain old | rfl := hidden
    · exact ⟨Nat.lt_succ_of_lt (h.hidden old).1, (h.hidden old).2⟩
    · exact ⟨Nat.lt_succ_self _, fun y paired => Nat.lt_irrefl _ (h.made paired).1⟩

/-- A fault that is made in the second store alone may be hidden. -/
theorem hide' (h : s.FaultsLike ρ t) (f : Fault) :
    s.FaultsLike (ρ.hide' ⟨t.faults.size⟩) (t.addFault f).2 := by
  have le := ρ.le_hide' ⟨t.faults.size⟩
  refine ⟨?_, ?_, h.unique, h.hidden, ?_⟩
  · intro x y paired
    obtain ⟨hx, hy⟩ := h.made paired
    rw [size_addFault]
    exact ⟨hx, Nat.lt_succ_of_lt hy⟩
  · intro x y paired
    rw [fault_addFault_of_lt _ (h.made paired).2]
    exact (h.like paired).mono le
  · intro y hidden
    rw [size_addFault]
    obtain old | rfl := hidden
    · exact ⟨Nat.lt_succ_of_lt (h.hidden' old).1, (h.hidden' old).2⟩
    · exact ⟨Nat.lt_succ_self _, fun x paired => Nat.lt_irrefl _ (h.made paired).2⟩

/-- Faults that belong together may be given like places. -/
theorem locate (h : s.FaultsLike ρ t) {x y : FaultRef} (paired : ρ.faults x y) {v w : Value}
    (place : v.Like ρ w) : (s.locate x v).FaultsLike ρ (t.locate y w) := by
  refine ⟨fun paired' => ?_, fun {x' y'} paired' => ?_, h.unique, fun hidden => ?_,
    fun hidden => ?_⟩
  · rw [size_locate, size_locate]
    exact h.made paired'
  · by_cases same : x' = x
    · obtain rfl := same
      obtain rfl := (h.unique paired' paired).1 rfl
      obtain ⟨hx, hy⟩ := h.made paired
      rw [fault_locate_self _ hx, fault_locate_self _ hy]
      obtain ⟨kind, args, chained, -, extras⟩ := h.like paired
      exact ⟨kind, args, chained, place, extras⟩
    · have other : y' ≠ y := fun same' => same ((h.unique paired' paired).2 same')
      rw [fault_locate_of_ne _ _ same, fault_locate_of_ne _ _ other]
      exact h.like paired'
  · rw [size_locate]
    exact h.hidden hidden
  · rw [size_locate]
    exact h.hidden' hidden

/-- What is hidden in the first store may be given any place. -/
theorem locate_hidden (h : s.FaultsLike ρ t) {x : FaultRef} (hidden : ρ.hidden x)
    (place : Value) : (s.locate x place).FaultsLike ρ t := by
  refine ⟨fun paired => ?_, fun {x' y'} paired => ?_, h.unique, fun hidden => ?_, h.hidden'⟩
  · rw [size_locate]
    exact h.made paired
  · have other : x' ≠ x := fun same => (h.hidden hidden).2 y' (same ▸ paired)
    rw [fault_locate_of_ne _ _ other]
    exact h.like paired
  · rw [size_locate]
    exact h.hidden hidden

/-- What is hidden in the second store may be given any place. -/
theorem locate_hidden' (h : s.FaultsLike ρ t) {y : FaultRef} (hidden : ρ.hidden' y)
    (place : Value) : s.FaultsLike ρ (t.locate y place) := by
  refine ⟨fun paired => ?_, fun {x' y'} paired => ?_, h.unique, h.hidden, fun hidden => ?_⟩
  · rw [size_locate]
    exact h.made paired
  · have other : y' ≠ y := fun same => (h.hidden' hidden).2 x' (same ▸ paired)
    rw [fault_locate_of_ne _ _ other]
    exact h.like paired
  · rw [size_locate]
    exact h.hidden' hidden

end FaultsLike

namespace OutcomesLike

/-- Outcomes that are made on both sides need not count. -/
theorem addOutcome (h : s.OutcomesLike ρ t) (r q : Result) :
    (s.addOutcome r).2.OutcomesLike ρ (t.addOutcome q).2 := by
  refine ⟨?_, fun counts => ?_, fun counts => ?_⟩
  · rw [size_addOutcome, size_addOutcome, h.size]
  · rw [size_addOutcome]
    exact Nat.lt_succ_of_lt (h.made counts)
  · have made := h.made counts
    rw [outcome_addOutcome_of_lt _ made, outcome_addOutcome_of_lt _ (h.size ▸ made)]
    exact h.like counts

/-- Like outcomes that are made on both sides may count. -/
theorem count (h : s.OutcomesLike ρ t) {r q : Result} (like : r.Like ρ q) :
    (s.addOutcome r).2.OutcomesLike (ρ.count ⟨s.outcomes.size⟩) (t.addOutcome q).2 := by
  have le := ρ.le_count ⟨s.outcomes.size⟩
  have grown := h.addOutcome r q
  refine ⟨grown.size, fun counts => ?_, fun counts => ?_⟩
  · obtain old | rfl := counts
    · exact grown.made old
    · rw [size_addOutcome]
      exact Nat.lt_succ_self _
  · obtain old | rfl := counts
    · exact (grown.like old).mono le
    · have first : (s.addOutcome r).2.outcome ⟨s.outcomes.size⟩ = ⟨r, []⟩ := by
        simp [Store.addOutcome, outcome]
      have second : (t.addOutcome q).2.outcome ⟨s.outcomes.size⟩ = ⟨q, []⟩ := by
        simp [Store.addOutcome, outcome, h.size]
      rw [first, second]
      exact ⟨like.mono le, .nil⟩

end OutcomesLike

namespace Like

/-- Only the faults of the stores have changed. -/
theorem withFaults (h : s.Like ρ t) (le : ρ ≤ ρ') (outcomes : ρ'.outcomes = ρ.outcomes)
    {es fs : Array Fault}
    (faults : ({ s with faults := es } : Store).FaultsLike ρ' { t with faults := fs }) :
    ({ s with faults := es } : Store).Like ρ' { t with faults := fs } := by
  obtain ⟨node, callables, object, token, tree, extent, position, invocations, additions, stamps,
    interpreter⟩ := h.rest.mono le
  refine ⟨⟨node, callables, object, token, tree, extent, position, invocations, additions, stamps,
    interpreter⟩, faults, ⟨h.outcomes.size, fun counts => ?_, fun counts => ?_⟩⟩
  · rw [outcomes] at counts
    exact h.outcomes.made counts
  · rw [outcomes] at counts
    exact (h.outcomes.like counts).mono le

theorem addFault (h : s.Like ρ t) {e f : Fault} (like : e.Like ρ f) :
    (s.addFault e).2.Like (ρ.pair ⟨s.faults.size⟩ ⟨t.faults.size⟩) (t.addFault f).2 :=
  h.withFaults (ρ.le_pair _ _) rfl (h.faults.addFault like)

theorem hide (h : s.Like ρ t) (e : Fault) :
    (s.addFault e).2.Like (ρ.hide ⟨s.faults.size⟩) t :=
  h.withFaults (ρ.le_hide _) rfl (h.faults.hide e)

theorem hide' (h : s.Like ρ t) (f : Fault) :
    s.Like (ρ.hide' ⟨t.faults.size⟩) (t.addFault f).2 :=
  h.withFaults (ρ.le_hide' _) rfl (h.faults.hide' f)

theorem addOutcome (h : s.Like ρ t) (r q : Result) :
    (s.addOutcome r).2.Like ρ (t.addOutcome q).2 := by
  obtain ⟨⟨node, callables, object, token, tree, extent, position, invocations, additions, stamps,
    interpreter⟩, ⟨made, like, unique, hidden, hidden'⟩, outcomes⟩ := h
  exact ⟨⟨node, callables, object, token, tree, extent, position, invocations, additions, stamps,
    interpreter⟩, ⟨made, like, unique, hidden, hidden'⟩, outcomes.addOutcome r q⟩

theorem count (h : s.Like ρ t) {r q : Result} (like : r.Like ρ q) :
    (s.addOutcome r).2.Like (ρ.count ⟨s.outcomes.size⟩) (t.addOutcome q).2 := by
  have le := ρ.le_count ⟨s.outcomes.size⟩
  obtain ⟨node, callables, object, token, tree, extent, position, invocations, additions, stamps,
    interpreter⟩ := h.rest.mono le
  exact ⟨⟨node, callables, object, token, tree, extent, position, invocations, additions, stamps,
    interpreter⟩, ⟨h.faults.made, fun paired => (h.faults.like paired).mono le, h.faults.unique,
      h.faults.hidden, h.faults.hidden'⟩, h.outcomes.count like⟩

theorem locate (h : s.Like ρ t) {x y : FaultRef} (paired : ρ.faults x y) {v w : Value}
    (place : v.Like ρ w) : (s.locate x v).Like ρ (t.locate y w) :=
  h.withFaults (le_refl ρ) rfl (h.faults.locate paired place)

theorem locate_hidden (h : s.Like ρ t) {x : FaultRef} (hidden : ρ.hidden x) (place : Value) :
    (s.locate x place).Like ρ t :=
  h.withFaults (le_refl ρ) rfl (h.faults.locate_hidden hidden place)

theorem locate_hidden' (h : s.Like ρ t) {y : FaultRef} (hidden : ρ.hidden' y) (place : Value) :
    s.Like ρ (t.locate y place) :=
  h.withFaults (le_refl ρ) rfl (h.faults.locate_hidden' hidden place)

theorem addStamp (h : s.Like ρ t) : s.addStamp.2.Like ρ t.addStamp.2 := by
  obtain ⟨⟨node, callables, object, token, tree, extent, position, invocations, additions, stamps,
    interpreter⟩, ⟨made, like, unique, hidden, hidden'⟩, ⟨size, made', like'⟩⟩ := h
  exact ⟨⟨node, callables, object, token, tree, extent, position, invocations, additions,
    congrArg (· + 1) stamps, interpreter⟩, ⟨made, like, unique, hidden, hidden'⟩,
    ⟨size, made', like'⟩⟩

theorem addItem (h : s.Like ρ t) (stamp : Nat) {v w : Value} (like : v.Like ρ w) :
    (s.addItem stamp v).Like ρ (t.addItem stamp w) := by
  obtain ⟨⟨node, callables, object, token, tree, extent, position, invocations, additions, stamps,
    interpreter⟩, faults, outcomes⟩ := h
  have grown : Forall₂ (Addition.Like ρ) (s.addItem stamp v).additions.toList
      (t.addItem stamp w).additions.toList := by
    simp only [Store.addItem, Array.toList_push]
    exact List.rel_append additions (.cons ⟨rfl, like⟩ .nil)
  exact ⟨⟨node, callables, object, token, tree, extent, position, invocations, grown, stamps,
    interpreter⟩, ⟨faults.made, faults.like, faults.unique, faults.hidden, faults.hidden'⟩,
    ⟨outcomes.size, outcomes.made, outcomes.like⟩⟩

theorem addInvocation (h : s.Like ρ t) (f : CallableRef) {vs ws : List Value}
    (like : Value.AllLike ρ vs ws) : (s.addInvocation f vs).Like ρ (t.addInvocation f ws) := by
  obtain ⟨⟨node, callables, object, token, tree, extent, position, invocations, additions, stamps,
    interpreter⟩, faults, outcomes⟩ := h
  have grown : Forall₂ (Invocation.Like ρ) (s.addInvocation f vs).invocations.toList
      (t.addInvocation f ws).invocations.toList := by
    simp only [Store.addInvocation, Array.toList_push]
    exact List.rel_append invocations (.cons ⟨rfl, like⟩ .nil)
  exact ⟨⟨node, callables, object, token, tree, extent, position, grown, additions, stamps,
    interpreter⟩, ⟨faults.made, faults.like, faults.unique, faults.hidden, faults.hidden'⟩,
    ⟨outcomes.size, outcomes.made, outcomes.like⟩⟩

end Like

end Store

/-! ## Parallel work -/

/-- Both have a result, and the results belong together, or both are broken off by faults that
do. -/
inductive Pairing.Ends (ρ : Pairing) {α α' : Type} (R : α → α' → Prop) :
    Except FaultRef α → Except FaultRef α' → Prop
  | ok {a a'} (h : R a a') : ρ.Ends R (.ok a) (.ok a')
  | error {e e'} (h : ρ.faults e e') : ρ.Ends R (.error e) (.error e')

/-- Two ends of some work belong together: under a pairing that says no less, the states that are
left are like one another, and what the work ends with belongs together. -/
def Matches {S α α' : Type} (like : Pairing → S → S → Prop) (ρ : Pairing)
    (R : Pairing → α → α' → Prop) (p : Except FaultRef α × S) (p' : Except FaultRef α' × S) :
    Prop :=
  ∃ ρ₁, ρ ≤ ρ₁ ∧ like ρ₁ p.2 p'.2 ∧ ρ₁.Ends (R ρ₁) p.1 p'.1

namespace Matches

variable {S α α' : Type} {like : Pairing → S → S → Prop} {R : Pairing → α → α' → Prop} {u : S}
  {p' : Except FaultRef α' × S}

/-- What belongs together with a result is a result. -/
theorem of_ok {a : α} (h : Matches like ρ R (.ok a, u) p') :
    ∃ a' u' ρ₁, p' = (.ok a', u') ∧ ρ ≤ ρ₁ ∧ like ρ₁ u u' ∧ R ρ₁ a a' := by
  obtain ⟨result, u'⟩ := p'
  obtain ⟨ρ₁, le, alike, ends⟩ := h
  cases ends with
  | ok related => exact ⟨_, u', ρ₁, rfl, le, alike, related⟩

/-- What belongs together with a fault is a fault. -/
theorem of_error {e : FaultRef} (h : Matches like ρ R ((.error e : Except FaultRef α), u) p') :
    ∃ e' u' ρ₁, p' = (.error e', u') ∧ ρ ≤ ρ₁ ∧ like ρ₁ u u' ∧ ρ₁.faults e e' := by
  obtain ⟨result, u'⟩ := p'
  obtain ⟨ρ₁, le, alike, ends⟩ := h
  cases ends with
  | error paired => exact ⟨_, u', ρ₁, rfl, le, alike, paired⟩

/-- What a result belongs together with is a result. -/
theorem of_ok_right {p : Except FaultRef α × S} {a' : α'} (h : Matches like ρ R p (.ok a', u)) :
    ∃ a u' ρ₁, p = (.ok a, u') ∧ ρ ≤ ρ₁ ∧ like ρ₁ u' u ∧ R ρ₁ a a' := by
  obtain ⟨result, u'⟩ := p
  obtain ⟨ρ₁, le, alike, ends⟩ := h
  cases ends with
  | ok related => exact ⟨_, u', ρ₁, rfl, le, alike, related⟩

theorem weaken {ρ₀ : Pairing} {p : Except FaultRef α × S} (h : Matches like ρ R p p')
    (le : ρ₀ ≤ ρ) : Matches like ρ₀ R p p' := by
  obtain ⟨ρ₁, le', done⟩ := h
  exact ⟨ρ₁, le_trans le le', done⟩

end Matches

/-- From like states the two pieces of work come to ends that belong together, under every pairing
that says no less than the given one. -/
def Work.Parallel {S α α' : Type} (like : Pairing → S → S → Prop) (ρ : Pairing)
    (R : Pairing → α → α' → Prop) (x : Work S α) (x' : Work S α') : Prop :=
  ∀ ⦃ρ₁⦄, ρ ≤ ρ₁ → ∀ ⦃s s'⦄, like ρ₁ s s' → Matches like ρ₁ R (x.runOn s) (x'.runOn s')

/-- The results are equal, whatever the pairing. -/
abbrev Pairing.Equal {α : Type} (_ : Pairing) : α → α → Prop :=
  Eq

theorem Pairing.Ends.imp {α α' : Type} {R R' : α → α' → Prop} {r : Except FaultRef α}
    {r' : Except FaultRef α'} (h : ρ.Ends R r r') (imp : ∀ {a a'}, R a a' → R' a a') :
    ρ.Ends R' r r' := by
  cases h with
  | ok h => exact .ok (imp h)
  | error h => exact .error h

namespace Work.Parallel

variable {S α α' β β' : Type} {like : Pairing → S → S → Prop} {R : Pairing → α → α' → Prop}
  {Q : Pairing → β → β' → Prop} {x : Work S α} {x' : Work S α'}

theorem mono (h : Parallel like ρ R x x') (le : ρ ≤ ρ') : Parallel like ρ' R x x' :=
  fun _ le' => h (le_trans le le')

theorem pure {a : α} {a' : α'} (h : ∀ {ρ₁}, ρ ≤ ρ₁ → R ρ₁ a a') :
    Parallel like ρ R (pure a) (pure a') :=
  fun ρ₁ le _ _ alike => ⟨ρ₁, le_refl _, alike, .ok (h le)⟩

theorem throw {e e' : FaultRef} (h : ρ.faults e e') :
    Parallel like ρ R (throw e) (throw e') :=
  fun ρ₁ le _ _ alike => ⟨ρ₁, le_refl _, alike, .error (le.faults h)⟩

/-- Work goes on in parallel after parallel work. -/
theorem bind {f : α → Work S β} {f' : α' → Work S β'} (hx : Parallel like ρ R x x')
    (hf : ∀ {ρ₁ a a'}, ρ ≤ ρ₁ → R ρ₁ a a' → Parallel like ρ₁ Q (f a) (f' a')) :
    Parallel like ρ Q (x >>= f) (x' >>= f') := by
  intro ρ₁ le s s' alike
  obtain ⟨ρ₂, le₂, left, ends⟩ := hx le alike
  rw [runOn_bind, runOn_bind]
  generalize x.runOn s = p at left ends
  generalize x'.runOn s' = p' at left ends
  obtain ⟨r, u⟩ := p
  obtain ⟨r', u'⟩ := p'
  cases ends with
  | error paired => exact ⟨ρ₂, le₂, left, .error paired⟩
  | ok related =>
    obtain ⟨ρ₃, le₃, done⟩ := hf (le_trans le le₂) related (le_refl _) left
    exact ⟨ρ₃, le_trans le₂ le₃, done⟩

theorem get : Parallel like ρ like get get :=
  fun ρ₁ _ _ _ alike => ⟨ρ₁, le_refl _, alike, .ok alike⟩

theorem guarded (h : Parallel like ρ R x x') :
    Parallel like ρ (fun ρ₁ => ρ₁.Ends (R ρ₁)) x.guarded x'.guarded := by
  intro ρ₁ le s s' alike
  obtain ⟨ρ₂, le₂, left, ends⟩ := h le alike
  exact ⟨ρ₂, le₂, left, .ok ends⟩

theorem ite {c : Prop} [Decidable c] {y : Work S α} {y' : Work S α'}
    (hx : Parallel like ρ R x x') (hy : Parallel like ρ R y y') :
    Parallel like ρ R (if c then x else y) (if c then x' else y') := by
  split
  · exact hx
  · exact hy

end Work.Parallel

/-! ## Attempts -/

/-- The outcomes are one and the same that counts, and their results are like one another. -/
structure Outcome.Like (ρ : Pairing) (o p : Outcome) : Prop where
  self : o.self = p.self
  counts : ρ.outcomes o.self
  result : o.result.Like ρ p.result

theorem Outcome.Like.mono (le : ρ ≤ ρ') {o p : Outcome} (h : o.Like ρ p) : o.Like ρ' p :=
  ⟨h.self, le.outcomes h.counts, h.result.mono le⟩

namespace Attempt

open Work

variable {α : Type} {v w : Value}

theorem parallel_stamp :
    Parallel Store.Like ρ Pairing.Equal (make Store.addStamp) (make Store.addStamp) :=
  fun ρ₁ _ _ _ alike => ⟨ρ₁, le_refl _, alike.addStamp, .ok alike.rest.stamps⟩

theorem parallel_text (t : String) : Parallel Store.Like ρ Value.Like (text t) (text t) :=
  parallel_stamp.bind fun _ same => .pure fun _ => same ▸ .str _ _

theorem parallel_tuple {vs ws : List Value} (like : Value.AllLike ρ vs ws) :
    Parallel Store.Like ρ Value.Like (tuple vs) (tuple ws) :=
  parallel_stamp.bind fun le same => .pure fun le' => same ▸ .tuple _ (like.mono (le_trans le le'))

theorem parallel_newFault (kind : FaultKind) {place place' : Value} {a b : Attributes}
    (args : v.Like ρ w) (places : place.Like ρ place') (extras : Environment.Like ρ a b) :
    Parallel Store.Like ρ Pairing.faults (newFault kind v place a) (newFault kind w place' b) := by
  intro ρ₁ le s s' alike
  exact ⟨ρ₁.pair ⟨s.faults.size⟩ ⟨s'.faults.size⟩, ρ₁.le_pair _ _,
    alike.addFault ⟨rfl, args.mono le, .null, places.mono le, extras.mono le⟩,
    .ok (.inr ⟨rfl, rfl⟩)⟩

theorem parallel_newFaultAt (kind : FaultKind) (message : String) (places : v.Like ρ w) :
    Parallel Store.Like ρ Pairing.faults (newFaultAt kind v message) (newFaultAt kind w message) :=
  (parallel_text message).bind fun le text =>
    (parallel_tuple (.cons text .nil)).bind fun le' args =>
      parallel_newFault kind args (places.mono (le_trans le le')) .nil

theorem parallel_newMessage (kind : FaultKind) (message : String) :
    Parallel Store.Like ρ Pairing.faults (newMessage kind message) (newMessage kind message) :=
  parallel_newFaultAt kind message .null

theorem parallel_malformed {R : Pairing → α → α → Prop} (message : String)
    (places : v.Like ρ w) :
    Parallel Store.Like ρ R (malformed v message) (malformed w message) :=
  (parallel_newFaultAt _ message places).bind fun _ paired => .throw paired

theorem parallel_misuse {R : Pairing → α → α → Prop} (m : Misuse) :
    Parallel Store.Like ρ R (misuse m) (misuse m) :=
  (parallel_newMessage m.kind m.message).bind fun _ paired => .throw paired

/-- What like stores answer alike may be asked. -/
theorem parallel_ask {answer answer' : Store → Except Misuse α}
    (same : ∀ {ρ₁ s t}, ρ ≤ ρ₁ → s.Like ρ₁ t → answer s = answer' t) :
    Parallel Store.Like ρ Pairing.Equal (ask answer) (ask answer') := by
  refine Parallel.get.bind fun {ρ₁ s t} le alike => ?_
  rw [same le alike]
  cases answer' t with
  | ok a => exact .pure fun _ => rfl
  | error m => exact parallel_misuse m

/-- The failed calls that are made of faults that belong together. -/
theorem parallel_newCallFailure {c d : FaultRef} (paired : ρ.faults c d)
    (messages : v.Like ρ w) :
    Parallel Store.Like ρ Pairing.faults (newCallFailure (.fault c) v)
      (newCallFailure (.fault d) w) := by
  intro ρ₁ le s s' alike
  rw [runOn_newCallFailure, runOn_newCallFailure]
  have cause : (Value.fault c).Like ρ₁ (.fault d) := .fault (le.faults paired)
  have like : (callFault (.fault c) v s.nextStamp).Like ρ₁
      (callFault (.fault d) w s'.nextStamp) := by
    rw [alike.rest.stamps]
    exact ⟨rfl, .tuple _ (.cons (messages.mono le) .nil), cause, .null,
      .cons _ cause .nil⟩
  exact ⟨_, ρ₁.le_pair _ _, alike.addStamp.addFault like, .ok (.inr ⟨rfl, rfl⟩)⟩

/-- Faults that belong together have the same text. -/
theorem parallel_askText {c d : FaultRef} (paired : ρ.faults c d) :
    Parallel Store.Like ρ Pairing.Equal (ask fun s => s.namedText (.fault c))
      (ask fun s => s.namedText (.fault d)) :=
  parallel_ask fun le alike => alike.namedText (.fault (le.faults paired))

theorem parallel_callFailure {c d : FaultRef} (paired : ρ.faults c d) :
    Parallel Store.Like ρ Pairing.faults (callFailure (.fault c)) (callFailure (.fault d)) := by
  refine (parallel_askText paired).bind fun {_ named _} le same => ?_
  cases same
  exact (parallel_text named).bind fun le' message =>
    parallel_newCallFailure ((le_trans le le').faults paired) message

theorem parallel_testFailure {c d : FaultRef} (paired : ρ.faults c d) :
    Parallel Store.Like ρ Pairing.faults (truthOrFailure.failure (.fault c))
      (truthOrFailure.failure (.fault d)) := by
  refine (parallel_askText paired).bind fun {_ named _} le same => ?_
  cases same
  exact (parallel_text _).bind fun le' message =>
    parallel_newCallFailure ((le_trans le le').faults paired) message

theorem parallel_unbound (names : v.Like ρ w) :
    Parallel Store.Like ρ Pairing.faults (unbound v) (unbound w) := by
  refine (parallel_ask fun le alike => alike.plainText (names.mono le)).bind
    fun {_ shown _} le same => ?_
  cases same
  refine (parallel_text _).bind fun le' message => ?_
  refine (parallel_tuple (.cons message .nil)).bind fun le'' args => ?_
  exact parallel_newFault _ args .null
    (.cons _ (names.mono (le_trans le (le_trans le' le''))) .nil)

theorem parallel_copyFault {c d : FaultRef} (paired : ρ.faults c d) :
    Parallel Store.Like ρ Pairing.faults (copyFault c) (copyFault d) :=
  fun ρ₁ le _ _ alike => ⟨_, ρ₁.le_pair _ _, alike.addFault (alike.faults.like (le.faults paired)),
    .ok (.inr ⟨rfl, rfl⟩)⟩

/-- Outcomes with like results that are made at the same time. -/
theorem parallel_newOutcome {r q : Result} (like : r.Like ρ q) :
    Parallel Store.Like ρ Outcome.Like (newOutcome r) (newOutcome q) := by
  intro ρ₁ le s s' alike
  have grown := ρ₁.le_count ⟨s.outcomes.size⟩
  refine ⟨_, grown, alike.count (like.mono le), .ok ⟨?_, .inr rfl, like.mono (le_trans le grown)⟩⟩
  exact congrArg OutcomeRef.mk alike.outcomes.size

end Attempt

end Fallback
