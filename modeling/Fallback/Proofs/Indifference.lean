import Fallback.Proofs.Displacement
import Fallback.Proofs.Twin

/-!
Work that goes the same way wherever things stand.

`Work.IsSteady` says of some work that it comes to the same end in states that differ in places
alone, and that it leaves such states. There is one law for every way of putting work together; but
the store itself must not be handed on, only what is the same in both. The functions of the
evaluator are steady one by one, if the host is blind.

`Outcome.Fits` is what has to be known of an outcome on the way. A value counts. A fault is hidden
or is of a kind that is given no place, so a place may be attached to it in both stores.
-/
namespace Fallback

open List (Forall₂)

variable {σ α β : Type} {ρ ρ' ρ₁ : Pairing} {base s t : Store} {L : Likeness σ} {host : Host σ}

/-! ## Steady work -/

/-- From related states the work comes to the same end, under every pairing that says no less than
the given one. -/
def Work.IsSteady {S : Type} (related : Pairing → S → S → Prop) (ρ : Pairing)
    (R : Pairing → Except FaultRef α → Prop) (x : Work S α) : Prop :=
  ∀ ⦃ρ₁⦄, ρ ≤ ρ₁ → ∀ ⦃s s'⦄, related ρ₁ s s' → Coincide related ρ₁ R (x.runOn s) (x.runOn s')

/-- A result is as a predicate says, and nothing is said of a fault. -/
def Pairing.Ensures (P : Pairing → α → Prop) (ρ : Pairing) : Except FaultRef α → Prop
  | .ok a => P ρ a
  | .error _ => True

namespace Coincide

variable {S : Type} {related : Pairing → S → S → Prop} {R : Pairing → Except FaultRef α → Prop}
  {p p' : Except FaultRef α × S}

theorem weaken {ρ₀ : Pairing} (h : Coincide related ρ R p p') (le : ρ₀ ≤ ρ) :
    Coincide related ρ₀ R p p' := by
  obtain ⟨same, ρ₁, le', done⟩ := h
  exact ⟨same, ρ₁, le_trans le le', done⟩

/-- One and the same piece of work follows in both states on what has come to the same end. -/
theorem bind {x : Work S α} {f : α → Work S β} {u u' : S} {Q : Pairing → Except FaultRef β → Prop}
    (h : Coincide related ρ R (x.runOn u) (x.runOn u'))
    (hf : ∀ {ρ₁ a v v'}, ρ ≤ ρ₁ → x.runOn u = (.ok a, v) → x.runOn u' = (.ok a, v') →
      related ρ₁ v v' → R ρ₁ (.ok a) → Coincide related ρ₁ Q ((f a).runOn v) ((f a).runOn v'))
    (he : ∀ {ρ₁ e}, R ρ₁ (.error e) → Q ρ₁ (.error e)) :
    Coincide related ρ Q ((x >>= f).runOn u) ((x >>= f).runOn u') := by
  obtain ⟨same, ρ₁, le, states, holds⟩ := h
  rw [Work.runOn_bind, Work.runOn_bind]
  generalize first : x.runOn u = p at same states holds hf
  generalize second : x.runOn u' = p' at same states hf
  obtain ⟨result, v⟩ := p
  obtain ⟨result', v'⟩ := p'
  cases same
  cases result with
  | error e => exact ⟨rfl, ρ₁, le, states, he holds⟩
  | ok a => exact (hf le rfl rfl states holds).weaken le

end Coincide

namespace Work.IsSteady

variable {S : Type} {related : Pairing → S → S → Prop} {R : Pairing → Except FaultRef α → Prop}
  {Q : Pairing → Except FaultRef β → Prop} {x y : Work S α} {f : α → Work S β}

theorem pure {a : α} (h : ∀ {ρ₁}, ρ ≤ ρ₁ → R ρ₁ (.ok a)) :
    IsSteady related ρ R (pure a : Work S α) :=
  fun ρ₁ le _ _ states => ⟨rfl, ρ₁, le_refl _, states, h le⟩

theorem throw {e : FaultRef} (h : ∀ {ρ₁}, ρ ≤ ρ₁ → R ρ₁ (.error e)) :
    IsSteady related ρ R (throw e : Work S α) :=
  fun ρ₁ le _ _ states => ⟨rfl, ρ₁, le_refl _, states, h le⟩

theorem bind (hx : IsSteady related ρ R x)
    (hf : ∀ {ρ₁ a}, ρ ≤ ρ₁ → R ρ₁ (.ok a) → IsSteady related ρ₁ Q (f a))
    (he : ∀ {ρ₁ e}, R ρ₁ (.error e) → Q ρ₁ (.error e)) : IsSteady related ρ Q (x >>= f) :=
  fun _ le _ _ states => (hx le states).bind
    (fun le' _ _ states' holds => hf (le_trans le le') holds (le_refl _) states') he

theorem guarded (h : IsSteady related ρ R x) :
    IsSteady related ρ (Pairing.Admits R) x.guarded := by
  intro ρ₁ le s s' states
  obtain ⟨same, ρ₂, le', states', holds⟩ := h le states
  exact ⟨congrArg Except.ok same, ρ₂, le', states', holds⟩

theorem ite {c : Prop} [Decidable c] (hx : IsSteady related ρ R x) (hy : IsSteady related ρ R y) :
    IsSteady related ρ R (if c then x else y) := by
  split
  · exact hx
  · exact hy

end Work.IsSteady

/-! ## Attempts -/

/-- The fault counts. -/
abbrev Pairing.Counts (ρ : Pairing) (x : FaultRef) : Prop :=
  ρ.faults x x

namespace Attempt

open Work

variable {kept : NodeRef → Prop}

theorem isSteady_stamp :
    IsSteady (Store.Displaced kept) ρ (Pairing.Admits fun _ _ => True) (make Store.addStamp) :=
  fun ρ₁ _ _ _ displaced => ⟨congrArg Except.ok displaced.nextStamp, ρ₁, le_refl _,
    displaced.addStamp, trivial⟩

theorem isSteady_text (t : String) :
    IsSteady (Store.Displaced kept) ρ (Pairing.Admits Pairing.Knows) (text t) :=
  isSteady_stamp.bind (fun _ _ => .pure fun _ => .str _ _) id

theorem isSteady_tuple {vs : List Value} (known : Value.AllLike ρ vs vs) :
    IsSteady (Store.Displaced kept) ρ (Pairing.Admits Pairing.Knows) (tuple vs) :=
  isSteady_stamp.bind (fun le _ => .pure fun le' => .tuple _ (known.mono (le_trans le le'))) id

theorem isSteady_newMessage (kind : FaultKind) (message : String) :
    IsSteady (Store.Displaced kept) ρ (Pairing.Admits Pairing.Counts) (newMessage kind message) := by
  intro ρ₁ _ s t displaced
  have same : faultAt t kind .null message = faultAt s kind .null message := by
    rw [faultAt, faultAt, displaced.nextStamp]
  have like : (faultAt s kind .null message).Like ρ₁ (faultAt s kind .null message) :=
    ⟨rfl, .tuple _ (.cons (.str _ _) .nil), .null, .null, .nil⟩
  rw [runOn_newMessage, runOn_newMessage, same]
  exact ⟨congrArg Except.ok displaced.nextFault, _, ρ₁.le_pair _ _,
    displaced.addStamp.addStamp.addFault like, .inr ⟨rfl, rfl⟩⟩

theorem isSteady_misuse {P : Pairing → α → Prop} (m : Misuse) :
    IsSteady (Store.Displaced kept) ρ (Pairing.Admits P) (misuse m : Attempt α) :=
  (isSteady_newMessage m.kind m.message).bind (fun _ counts => .throw fun le => le.faults counts) id

/-- What has the same answer in both stores may be asked. -/
theorem isSteady_ask {answer : Store → Except Misuse α}
    (same : ∀ {ρ₁ s t}, ρ ≤ ρ₁ → s.Displaced kept ρ₁ t → answer t = answer s) :
    IsSteady (Store.Displaced kept) ρ (Pairing.Admits fun _ _ => True) (ask answer) := by
  intro ρ₁ le s t displaced
  rw [runOn_ask, runOn_ask, same le displaced]
  cases answer s with
  | ok a => exact ⟨rfl, ρ₁, le_refl _, displaced, trivial⟩
  | error m => exact isSteady_misuse m (le_refl _) displaced

theorem isSteady_newCallFailure (c : FaultRef) (message : Value) :
    IsSteady (Store.Displaced kept) ρ (Pairing.Admits Pairing.Conceals)
      (newCallFailure (.fault c) message) := by
  intro ρ₁ _ s t displaced
  rw [runOn_newCallFailure, runOn_newCallFailure, displaced.nextStamp]
  exact ⟨congrArg Except.ok displaced.nextFault, _, ρ₁.le_conceal _,
    displaced.addStamp.addHidden rfl, ρ₁.conceals_conceal _⟩

/-- The text of a fault that counts may go into the message of a failed call. -/
theorem isSteady_failedCall {c : FaultRef} (counts : ρ.Counts c) (write : String → String) :
    IsSteady (Store.Displaced kept) ρ (Pairing.Admits Pairing.Conceals) (do
      let named ← ask fun s => s.namedText (.fault c)
      newCallFailure (.fault c) (← text (write named))) :=
  (isSteady_ask fun le displaced => displaced.namedText (.fault (le.faults counts))).bind
    (fun _ _ => (isSteady_text _).bind (fun _ _ => isSteady_newCallFailure c _) id) id

theorem isSteady_callFailure {c : FaultRef} (counts : ρ.Counts c) :
    IsSteady (Store.Displaced kept) ρ (Pairing.Admits Pairing.Conceals) (callFailure (.fault c)) :=
  isSteady_failedCall counts id

theorem isSteady_testFailure {c : FaultRef} (counts : ρ.Counts c) :
    IsSteady (Store.Displaced kept) ρ (Pairing.Admits Pairing.Conceals)
      (truthOrFailure.failure (.fault c)) :=
  isSteady_failedCall counts ("truth test failed: " ++ ·)

end Attempt

/-! ## Acts -/

/-- What has to be known of an outcome: nothing but what counts is reached from its value, and what
it raises is hidden, or was made in a store before and is of a kind that is given no place. -/
def Outcome.Fits (base : Store) (ρ : Pairing) (o : Outcome) : Prop :=
  match o.result with
  | .success v => ρ.Knows v
  | .raised e => e.IsSecret base ρ.Conceals

theorem Value.IsSecret.mono (le : ρ ≤ ρ') {e : Value} (h : e.IsSecret base ρ.Conceals) :
    e.IsSecret base ρ'.Conceals := by
  obtain ⟨x, rfl, why⟩ := h
  exact ⟨x, rfl, why.imp (·.mono le) id⟩

theorem Outcome.Fits.mono (le : ρ ≤ ρ') {o : Outcome} (h : o.Fits base ρ) : o.Fits base ρ' := by
  obtain ⟨self, v | e⟩ := o
  · exact Value.Like.mono le h
  · exact Value.IsSecret.mono le h

theorem Outcome.Fits.value {o : Outcome} (h : o.Fits base ρ) : ρ.Knows o.value := by
  obtain ⟨self, v | e⟩ := o
  · exact h
  · exact .null

namespace Act

open Work

variable {R : Pairing → Except FaultRef α → Prop}

theorem isSteady_ofAttempt {x : Attempt α} (h : IsSteady (Store.Displaced L.Keeps) ρ R x) :
    IsSteady (World.Displaced L) ρ R (ofAttempt x) := by
  intro ρ₁ le w w' displaced
  obtain ⟨same, ρ₂, le', stores, holds⟩ := h le displaced.store
  exact ⟨same, ρ₂, le', displaced.withStore le' stores, holds⟩

/-- What is done with the store has to be the same with the other one. -/
theorem isSteady_store_bind {f : Store → Act σ α}
    (h : ∀ {ρ₁ s t}, ρ ≤ ρ₁ → s.Displaced L.Keeps ρ₁ t →
      f t = f s ∧ IsSteady (World.Displaced L) ρ₁ R (f s)) :
    IsSteady (World.Displaced L) ρ R (store >>= f) := by
  intro ρ₁ le w w' displaced
  obtain ⟨same, steady⟩ := h le displaced.store
  rw [runOn_bind_ok (runOn_store w), runOn_bind_ok (runOn_store w'), same]
  exact steady (le_refl _) displaced

theorem isSteady_modifyStore {P : Pairing → Unit → Prop} {f : Store → Store}
    (h : ∀ {ρ₁ s t}, ρ ≤ ρ₁ → s.Displaced L.Keeps ρ₁ t → (f s).Displaced L.Keeps ρ₁ (f t))
    (holds : ∀ {ρ₁}, P ρ₁ ()) :
    IsSteady (World.Displaced L) ρ (Pairing.Admits P) (modifyStore f : Act σ Unit) :=
  fun ρ₁ le _ _ displaced => ⟨rfl, ρ₁, le_refl _,
    displaced.withStore (le_refl _) (h le displaced.store), holds⟩

theorem isSteady_newOutcome {r : Result} (fits : ∀ self, Outcome.Fits base ρ ⟨self, r⟩) :
    IsSteady (World.Displaced L) ρ (Pairing.Ensures (Outcome.Fits base))
      (ofAttempt (Attempt.newOutcome r)) := by
  intro ρ₁ le w w' displaced
  have same := congrArg (Outcome.mk · r) displaced.store.nextOutcome
  exact ⟨congrArg Except.ok same, ρ₁, le_refl _,
    displaced.withStore (le_refl _) (displaced.store.addOutcome r), (fits _).mono le⟩

theorem isSteady_success {v : Value} (known : ρ.Knows v) :
    IsSteady (World.Displaced L) ρ (Pairing.Ensures (Outcome.Fits base)) (success v) :=
  isSteady_newOutcome fun _ => known

theorem isSteady_raised {e : Value} (secret : e.IsSecret base ρ.Conceals) :
    IsSteady (World.Displaced L) ρ (Pairing.Ensures (Outcome.Fits base)) (raised e) :=
  isSteady_newOutcome fun _ => secret

theorem isSteady_raisedFault {x : Attempt FaultRef}
    (h : IsSteady (Store.Displaced L.Keeps) ρ (Pairing.Admits Pairing.Conceals) x) :
    IsSteady (World.Displaced L) ρ (Pairing.Ensures (Outcome.Fits base)) (raisedFault x) :=
  (isSteady_ofAttempt h).bind (fun _ hidden => isSteady_raised ⟨_, rfl, .inl hidden⟩)
    fun _ => trivial

end Act

section Acts

open Work

variable (blind : host.IsBlind L)
include blind

theorem isSteady_truthTest (v : Value) :
    IsSteady (World.Displaced L) ρ (Pairing.Admits fun _ _ => True) (truthTest host v) := by
  have own : IsSteady (World.Displaced L) ρ (Pairing.Admits fun _ _ => True)
      (do return (← Act.store).truth v : Act σ Bool) :=
    Act.isSteady_store_bind fun _ displaced =>
      ⟨congrArg Pure.pure (displaced.truth v), .pure fun _ => trivial⟩
  cases v with
  | object o => exact fun _ _ _ _ displaced => blind.truth displaced o
  | _ => exact own

/-- A truth test that fails makes a fault that does not count. -/
theorem isSteady_truthOrFailure (v : Value) :
    IsSteady (World.Displaced L) ρ
      (Pairing.Ensures fun ρ (r : Except FaultRef Bool) => ∀ x, r = .error x → ρ.Conceals x)
      (truthOrFailure host v) := by
  unfold truthOrFailure
  refine (isSteady_truthTest blind v).guarded.bind (fun {ρ₁ r} _ admits => ?_) fun _ => trivial
  cases r with
  | ok b => exact .pure fun _ x h => by cases h
  | error e =>
    refine Act.isSteady_store_bind fun le displaced => ⟨by rw [displaced.kind], .ite ?_ ?_⟩
    · refine (Act.isSteady_ofAttempt (Attempt.isSteady_testFailure (le.faults admits))).bind
        (fun _ hidden => .pure fun le' x h => ?_) fun _ => trivial
      cases h
      exact hidden.mono le'
    · exact .throw fun _ => trivial

omit blind in
/-- Noting a call is steady if what was put in the place of the list is invoked steadily. -/
theorem isSteady_noteCall {links : Nat} (f : CallableRef) {noted : Value} (closed : s.Like ρ s)
    (le : ρ ≤ ρ') (knows : ρ'.Knows noted)
    (invokes : ∀ {adder : Value}, ρ'.Knows adder → IsSteady (World.Displaced L) ρ'
      (Pairing.Admits Pairing.Knows) (invokeWithin host links adder [noted])) :
    IsSteady (World.Displaced L) ρ' (Pairing.Admits fun _ _ => True)
      (noteCall host links s f noted) := by
  have calls := (closed.rest.callable f).calls
  have adders := closed.attribute? calls "append"
  unfold noteCall
  generalize (s.callable f).calls = held at calls adders
  generalize s.attribute? held "append" = adder at adders
  cases held with
  | list items stamp =>
    exact Act.isSteady_modifyStore
      (fun le displaced => displaced.addItem stamp (knows.mono le)) trivial
  | _ =>
    cases adders with
    | none => exact Act.isSteady_ofAttempt (Attempt.isSteady_misuse _)
    | some adder => exact (invokes (adder.mono le)).bind (fun _ _ => .pure fun _ => trivial) id

theorem isSteady_invokeWithin (links : Nat) {v : Value} {vs : List Value} (known : ρ.Knows v)
    (args : Value.AllLike ρ vs vs) :
    IsSteady (World.Displaced L) ρ (Pairing.Admits Pairing.Knows)
      (invokeWithin host links v vs) := by
  induction links generalizing ρ v vs with
  | zero => exact Act.isSteady_ofAttempt (Attempt.isSteady_misuse .tooDeep)
  | succ links ih =>
    have refused : IsSteady (World.Displaced L) ρ (Pairing.Admits Pairing.Knows)
        (do
          let s ← Act.store
          Act.ofAttempt (Attempt.misuse (.notCallable (s.hostTypeName v))) : Act σ Value) :=
      Act.isSteady_store_bind fun _ displaced =>
        ⟨by rw [displaced.hostTypeName], Act.isSteady_ofAttempt (Attempt.isSteady_misuse _)⟩
    cases v with
    | callable f =>
      rw [invokeWithin_callable]
      refine Act.isSteady_store_bind fun {ρ₁ s t} le displaced => ⟨?_, ?_⟩
      · have adders : t.attribute? (s.callable f).calls "append" =
            s.attribute? (s.callable f).calls "append" := displaced.attribute? _ (by decide)
        simp only [noteCall, displaced.callable, adders, displaced.hostTypeName]
      refine (Act.isSteady_ofAttempt (Attempt.isSteady_tuple (args.mono le))).bind
        (fun le₂ knows => ?_) id
      refine (isSteady_noteCall f displaced.closed le₂ knows fun known =>
        ih known (.cons knows .nil)).bind (fun le₃ _ => ?_) id
      exact Act.isSteady_store_bind fun le₄ displaced => ⟨by rw [displaced.callable],
        ih (displaced.closed.rest.callable f).routine
          (args.mono (le_trans le (le_trans le₂ (le_trans le₃ le₄))))⟩
    | routine r =>
      refine (Act.isSteady_modifyStore (P := fun _ _ => True) (fun {ρ₁ s t} le displaced => ?_)
        trivial).bind (fun le _ _ le' _ _ displaced =>
          blind.run displaced r (args.mono (le_trans le le'))) id
      rw [displaced.ownerOf? r]
      cases s.ownerOf? r with
      | none => exact displaced
      | some f => exact displaced.addInvocation f (args.mono le)
    | _ => exact refused

theorem isSteady_invoke {v : Value} {vs : List Value} (known : ρ.Knows v)
    (args : Value.AllLike ρ vs vs) :
    IsSteady (World.Displaced L) ρ (Pairing.Admits Pairing.Knows) (invoke host v vs) :=
  Act.isSteady_store_bind fun le displaced => ⟨by rw [displaced.callables],
    isSteady_invokeWithin blind _ (known.mono le) (args.mono le)⟩

/-- A call that fails makes a fault that does not count. -/
theorem isSteady_callValue {v : Value} {vs : List Value} (known : ρ.Knows v)
    (args : Value.AllLike ρ vs vs) :
    IsSteady (World.Displaced L) ρ (Pairing.Ensures (Outcome.Fits base)) (callValue host v vs) := by
  refine Act.isSteady_store_bind fun {ρ₁ s t} le displaced =>
    ⟨by rw [displaced.typeName], .ite ?_ ?_⟩
  · refine (isSteady_invoke blind (known.mono le) (args.mono le)).guarded.bind
      (fun {ρ₂ r} _ admits => ?_) fun _ => trivial
    cases r with
    | ok v => exact Act.isSteady_success admits
    | error e =>
      refine Act.isSteady_store_bind fun le' displaced => ⟨by rw [displaced.kind], .ite ?_ ?_⟩
      · exact .throw fun _ => trivial
      · exact Act.isSteady_raisedFault (Attempt.isSteady_callFailure (le'.faults admits))
  · exact (Act.isSteady_ofAttempt (Attempt.isSteady_newMessage _ _)).bind
      (fun _ counts => Act.isSteady_raisedFault (Attempt.isSteady_callFailure counts))
      fun _ => trivial

omit blind

variable {w w' : World σ}

/-- A name that is a text is looked up in the same way. -/
theorem coincide_lookup (displaced : w.Displaced L ρ w') {vars : Environment}
    (bound : vars.Like ρ vars) {name : Value} {text : String}
    (named : w.store.text? name = some text) :
    Coincide (World.Displaced L) ρ (Pairing.Ensures (Outcome.Fits base))
      ((lookup vars name).runOn w) ((lookup vars name).runOn w') := by
  have named' : w'.store.text? name = some text := (displaced.store.text? name).trans named
  rw [runOn_lookup named, runOn_lookup named']
  have found := bound.get? text
  generalize vars.get? text = x at found
  cases found with
  | some known => exact Act.isSteady_success known (le_refl _) displaced
  | none =>
    have made : (w.store.withUnbound name text).Displaced L.Keeps (ρ.conceal ⟨w.store.faults.size⟩)
        (w'.store.withUnbound name text) := by
      rw [Store.withUnbound, Store.withUnbound, displaced.store.nextStamp]
      exact displaced.store.addStamp.addStamp.addHidden rfl
    have le := ρ.le_conceal ⟨w.store.faults.size⟩
    have secret : (Value.fault ⟨w.store.faults.size⟩).IsSecret base
        (ρ.conceal ⟨w.store.faults.size⟩).Conceals :=
      ⟨_, rfl, .inl (ρ.conceals_conceal _)⟩
    dsimp only
    rw [displaced.store.nextFault]
    exact (Act.isSteady_raised secret (le_refl _) (displaced.withStore le made)).weaken le

/-- A fault that has no way of its own to be copied is raised in the same way. -/
theorem coincide_evalRaise (displaced : w.Displaced L ρ w') (le : base ≤ w.store) {x : FaultRef}
    (made : x.index < base.faults.size) (plain : ¬w.store.CopiesOwnWay x) :
    Coincide (World.Displaced L) ρ (Pairing.Ensures (Outcome.Fits base))
      ((evalRaise host (.fault x)).runOn w) ((evalRaise host (.fault x)).runOn w') := by
  have kinds := displaced.store.kind x
  have ways : w'.store.attribute? (.fault x) copyName = w.store.attribute? (.fault x) copyName :=
    displaced.store.attribute? _ (by decide)
  rw [runOn_evalRaise, runOn_evalRaise, kinds]
  cases locatable : (w.store.fault x).kind.isLocatable with
  | false =>
    rw [(le.kind made).2] at locatable
    exact Act.isSteady_raised ⟨x, rfl, .inr ⟨made, locatable⟩⟩ (le_refl _) displaced
  | true =>
    have none : w.store.attribute? (.fault x) copyName = none := by
      by_contra own
      exact plain ⟨locatable, own⟩
    have copies : Coincide (World.Displaced L) ρ
        (Pairing.Ensures fun ρ e => Value.IsSecret base ρ.Conceals e)
        ((copyOf host x).runOn w) ((copyOf host x).runOn w') := by
      rw [runOn_copyOf, runOn_copyOf, ways, none]
      exact ⟨congrArg (fun x => Except.ok (Value.fault x)) displaced.store.nextFault, _,
        ρ.le_conceal _, displaced.withStore (ρ.le_conceal _)
          (displaced.store.addHidden (displaced.store.unplaced_fault x)),
        _, rfl, .inl (ρ.conceals_conceal _)⟩
    rw [if_pos rfl, if_pos rfl]
    exact copies.bind (fun _ _ _ displaced secret =>
      Act.isSteady_raised secret (le_refl _) displaced) fun _ => trivial

end Acts

/-! ## Evaluations -/

/-- The frames are the same, the worlds are the same without the places, and what counts leads to
nothing but what counts. -/
structure Run.Displaced (L : Likeness σ) (ρ : Pairing) (r r' : Run σ) : Prop where
  world : r.world.Displaced L ρ r'.world
  frame : r'.frame = r.frame
  known : r.frame.Like ρ r.frame

section Evaluations

open Work

variable {r r' : Run σ} {v : Value}

theorem Run.Displaced.withWorld {w w' : World σ} (h : r.Displaced L ρ r') (le : ρ ≤ ρ')
    (worlds : w.Displaced L ρ' w') :
    Run.Displaced L ρ' { r with world := w } { r' with world := w' } :=
  ⟨worlds, h.frame, h.known.mono le⟩

theorem coincide_ofAct {R : Pairing → Except FaultRef α → Prop} {x : Act σ α}
    (displaced : r.Displaced L ρ r')
    (h : Coincide (World.Displaced L) ρ R (x.runOn r.world) (x.runOn r'.world)) :
    Coincide (Run.Displaced L) ρ R ((Eval.ofAct x).runOn r) ((Eval.ofAct x).runOn r') := by
  obtain ⟨same, ρ₁, le, worlds, holds⟩ := h
  exact ⟨same, ρ₁, le, displaced.withWorld le worlds, holds⟩

theorem isSteady_ofAct {R : Pairing → Except FaultRef α → Prop} {x : Act σ α}
    (h : IsSteady (World.Displaced L) ρ R x) : IsSteady (Run.Displaced L) ρ R (Eval.ofAct x) :=
  fun _ le _ _ displaced => coincide_ofAct displaced (h le displaced.world)

/-- The same debug record is written in both worlds or in none. -/
theorem isSteady_debug (blind : host.IsBlind L) (record : Frame → LogRecord) :
    IsSteady (Run.Displaced L) ρ (Pairing.Ensures fun _ _ => True) (debug host record) := by
  intro ρ₁ _ r r' displaced
  rw [debug, runOn_bind_ok (Eval.runOn_frame r), runOn_bind_ok (Eval.runOn_frame r'),
    displaced.frame]
  have tests := isSteady_ofAct (isSteady_truthTest blind r.frame.debug) (le_refl _) displaced
  refine tests.bind (fun {ρ₂ b u u'} _ _ _ displaced' _ => ?_) fun _ => trivial
  cases b with
  | false => exact ⟨rfl, ρ₂, le_refl _, displaced', trivial⟩
  | true =>
    obtain ⟨⟨store, trace, log, host, states⟩, frame, known⟩ := displaced'
    exact ⟨rfl, ρ₂, le_refl _, ⟨⟨store, trace, congrArg (·.push (record r.frame)) log, host,
      states⟩, frame, known⟩, trivial⟩

theorem isSteady_observe (f : Trace → Trace) :
    IsSteady (Run.Displaced L) ρ (Pairing.Ensures fun _ _ => True)
      (Eval.observe f : Eval σ Unit) := by
  intro ρ₁ _ r r' displaced
  refine ⟨rfl, ρ₁, le_refl _, ?_, trivial⟩
  obtain ⟨⟨store, trace, log, host, states⟩, frame, known⟩ := displaced
  simp only [Eval.observe, runOn_modify, frame]
  split
  · exact ⟨⟨store, congrArg f trace, log, host, states⟩, rfl, known⟩
  · exact ⟨⟨store, trace, log, host, states⟩, frame, known⟩

/-! ### Decisions -/

/-- What has to be known of a move: the same as of an outcome, if it has one. -/
def Move.Fits (base : Store) (ρ : Pairing) : Move → Prop
  | .visit _ _ => True
  | .keep o | .finish o => o.Fits base ρ

theorem Move.Fits.mono (le : ρ ≤ ρ') {m : Move} (h : m.Fits base ρ) : m.Fits base ρ' := by
  cases m with
  | visit slot v => trivial
  | keep o => exact Outcome.Fits.mono le h
  | finish o => exact Outcome.Fits.mono le h

/-- A rule that makes an outcome of its own finishes with it. -/
theorem coincide_finish {x : Act σ Outcome} (displaced : r.Displaced L ρ r')
    (h : Coincide (World.Displaced L) ρ (Pairing.Ensures (Outcome.Fits base)) (x.runOn r.world)
      (x.runOn r'.world)) :
    Coincide (Run.Displaced L) ρ (Pairing.Ensures (Move.Fits base))
      ((do return .finish (← Eval.ofAct x) : Eval σ Move).runOn r)
      ((do return .finish (← Eval.ofAct x) : Eval σ Move).runOn r') :=
  (coincide_ofAct displaced h).bind
    (fun _ _ _ displaced fits => ⟨rfl, _, le_refl _, displaced, fits⟩) fun _ => trivial

theorem isSteady_finish {x : Act σ Outcome}
    (h : IsSteady (World.Displaced L) ρ (Pairing.Ensures (Outcome.Fits base)) x) :
    IsSteady (Run.Displaced L) ρ (Pairing.Ensures (Move.Fits base))
      (do return .finish (← Eval.ofAct x) : Eval σ Move) :=
  fun _ le _ _ displaced => coincide_finish displaced (h le displaced.world)

/-- A move that is known already. -/
theorem isSteady_move {m : Move} (fits : m.Fits base ρ) :
    IsSteady (Run.Displaced L) ρ (Pairing.Ensures (Move.Fits base)) (pure m : Eval σ Move) :=
  .pure fun le => fits.mono le

/-- The last outcome is like the others. -/
theorem Outcome.Fits.getLastD {o : Outcome} {os : List Outcome}
    (all : ∀ p ∈ o :: os, p.Fits base ρ) : (os.getLastD o).Fits base ρ :=
  all _ List.getLastD_mem_cons

theorem Outcome.Fits.values {os : List Outcome} (all : ∀ o ∈ os, o.Fits base ρ) :
    Value.AllLike ρ (os.map Outcome.value) (os.map Outcome.value) := by
  induction os with
  | nil => exact .nil
  | cons o os ih =>
    obtain ⟨first, more⟩ := List.forall_mem_cons.1 all
    exact .cons first.value (ih more)

section Decisions

variable (blind : host.IsBlind L)
include blind

theorem isSteady_nextOnTruth (v : Value) {onTrue onFalse : Move} (ifTrue : onTrue.Fits base ρ)
    (ifFalse : onFalse.Fits base ρ) :
    IsSteady (Run.Displaced L) ρ (Pairing.Ensures (Move.Fits base))
      (nextOnTruth host v onTrue onFalse) := by
  refine (isSteady_ofAct (isSteady_truthOrFailure blind v)).bind (fun {ρ₁ r} le hidden => ?_)
    fun _ => trivial
  cases r with
  | error e =>
    exact isSteady_finish (Act.isSteady_raised ⟨e, rfl, .inl (hidden e rfl)⟩)
  | ok b =>
    refine isSteady_move ?_
    split
    · exact ifTrue.mono le
    · exact ifFalse.mono le

theorem isSteady_nextOfCall (callee : Value) (items : List Value) {os : List Outcome}
    (all : ∀ o ∈ os, o.Fits base ρ) :
    IsSteady (Run.Displaced L) ρ (Pairing.Ensures (Move.Fits base))
      (nextOfCall host callee items os) := by
  rcases os with - | ⟨first, more⟩
  · exact isSteady_move trivial
  · have last := Outcome.Fits.getLastD all
    simp only [nextOfCall]
    split
    · exact isSteady_move last
    · split
      · exact isSteady_move trivial
      · obtain ⟨first, more⟩ := List.forall_mem_cons.1 all
        exact isSteady_finish (isSteady_callValue blind first.value (Outcome.Fits.values more))

theorem isSteady_nextOfFallback (op : Operator) (lhs rhs : Value) {os : List Outcome}
    (all : ∀ o ∈ os, o.Fits base ρ) :
    IsSteady (Run.Displaced L) ρ (Pairing.Ensures (Move.Fits base))
      (nextOfFallback host op lhs rhs os) := by
  rcases os with - | ⟨first, - | ⟨second, more⟩⟩
  · exact isSteady_move trivial
  · have fits := all first (List.mem_singleton_self first)
    simp only [nextOfFallback]
    split
    · exact isSteady_move fits
    · exact (isSteady_debug blind _).bind (fun _ _ => isSteady_move trivial) fun _ => trivial
    · exact isSteady_move fits
    · exact isSteady_move fits
    · refine isSteady_move ?_
      split
      · trivial
      · exact fits
    · exact isSteady_nextOnTruth blind _ fits trivial
  · exact isSteady_move (Outcome.Fits.getLastD fun p hp => all p (List.mem_cons_of_mem _ hp))

theorem isSteady_nextOfTernary (condition thenBranch elseBranch : Value) {os : List Outcome}
    (all : ∀ o ∈ os, o.Fits base ρ) :
    IsSteady (Run.Displaced L) ρ (Pairing.Ensures (Move.Fits base))
      (nextOfTernary host condition thenBranch elseBranch os) := by
  rcases os with - | ⟨first, - | ⟨second, more⟩⟩
  · exact isSteady_move trivial
  · simp only [nextOfTernary]
    split
    · exact isSteady_move (all first (List.mem_singleton_self first))
    · exact isSteady_nextOnTruth blind _ trivial trivial
  · exact isSteady_move (Outcome.Fits.getLastD fun p hp => all p (List.mem_cons_of_mem _ hp))

/-- The rule of a form makes the same move, provided that a fault that it raises has no way of its
own to be copied. -/
theorem coincide_next (displaced : r.Displaced L ρ r') (le : base ≤ r.world.store) {f : Form}
    (fit : f.IsFit base) (known : Value.AllLike ρ f.values f.values) {os : List Outcome}
    (all : ∀ o ∈ os, o.Fits base ρ)
    (plain : ∀ x, f = .raise (.fault x) → ¬r.world.store.CopiesOwnWay x) :
    Coincide (Run.Displaced L) ρ (Pairing.Ensures (Move.Fits base)) ((f.next host os).runOn r)
      ((f.next host os).runOn r') := by
  cases f with
  | literal v =>
    obtain ⟨like, -⟩ := List.forall₂_cons.1 known
    exact isSteady_finish (Act.isSteady_success like) (le_refl _) displaced
  | reference name =>
    obtain ⟨⟨text, named, -⟩, there⟩ := fit
    have here := Store.text?_of_le le there named
    obtain ⟨frame', world'⟩ := r'
    cases displaced.frame
    exact coincide_finish displaced (coincide_lookup displaced.world displaced.known.vars here)
  | call callee args => exact isSteady_nextOfCall blind _ _ all (le_refl _) displaced
  | fallback op lhs rhs => exact isSteady_nextOfFallback blind op lhs rhs all (le_refl _) displaced
  | ternary condition thenBranch elseBranch =>
    exact isSteady_nextOfTernary blind condition thenBranch elseBranch all (le_refl _) displaced
  | raise exception =>
    obtain ⟨x, rfl, made, -⟩ := fit
    exact coincide_finish displaced (coincide_evalRaise displaced.world le made (plain x rfl))

end Decisions

end Evaluations

end Fallback
