import Fallback.Proofs.Construction
import Fallback.Proofs.Escape

/-!
Guards around the host.

As long as the host ends with ordinary faults only, an evaluation ends with an outcome or with the
report of a broken tree, except where the guards do not reach. `Position.Unguarded` lists these
places: the text of a fault is needed for the message of the failed call and cannot be written, a
recoverable fault has a way of its own to be copied, or the debug switch is asked for its truth.
Wherever a fault can be shown the guard makes a failed call of it, with the fault as its cause.
-/
namespace Fallback

open Relation (ReflTransGen)

variable {σ : Type} {host : Host σ}

/-! ## What work fails with -/

/-- The faults that the work ends with are as they should be. -/
def Work.Fails {S α : Type} (P : FaultRef → S → Prop) (x : Work S α) : Prop :=
  ∀ s e t, x.runOn s = (.error e, t) → P e t

namespace Work

variable {S α β : Type} {P : FaultRef → S → Prop}

theorem Fails.bind {x : Work S α} {f : α → Work S β} (hx : x.Fails P) (hf : ∀ a, (f a).Fails P) :
    (x >>= f).Fails P := by
  intro s e t h
  obtain h | ⟨a, u, -, h⟩ := runOn_bind_eq_error.1 h
  · exact hx s e t h
  · exact hf a u e t h

/-- Work that cannot fail. -/
theorem fails_of_ok {x : Work S α} (h : ∀ s, ∃ a t, x.runOn s = (.ok a, t)) : x.Fails P := by
  intro s e t k
  obtain ⟨a, u, h⟩ := h s
  rw [h] at k
  cases k

end Work

/-- The fault is ordinary: it is not an interruption. -/
def IsOrdinaryIn (e : FaultRef) (w : World σ) : Prop :=
  (w.store.fault e).kind.isOrdinary = true

/-- The host ends with ordinary faults only. -/
structure Host.IsOrdinary (host : Host σ) : Prop where
  run (r : RoutineRef) (args : List Value) : (Work.ofRun (host.run r args)).Fails IsOrdinaryIn
  truth (o : ObjectRef) : (Work.ofRun (host.truth o)).Fails IsOrdinaryIn

theorem Misuse.isOrdinary_kind (m : Misuse) : m.kind.isOrdinary = true := by
  cases m <;> rfl

theorem fails_misuse {α : Type} (m : Misuse) :
    (Act.ofAttempt (Attempt.misuse m : Attempt α) : Act σ α).Fails IsOrdinaryIn := by
  intro w e w' h
  rw [Act.runOn_ofAttempt, Attempt.runOn_misuse] at h
  cases h
  have made := Store.fault_addFault_self w.store.addStamp.2.addStamp.2
    (Attempt.faultAt w.store m.kind .null m.message)
  exact (congrArg (fun x => x.kind.isOrdinary) made).trans m.isOrdinary_kind

theorem fails_truthTest (ho : host.IsOrdinary) (v : Value) :
    (truthTest host v).Fails IsOrdinaryIn := by
  unfold truthTest
  split
  · exact ho.truth _
  · exact Work.fails_of_ok fun _ => ⟨_, _, rfl⟩

theorem fails_invokeWithin (ho : host.IsOrdinary) (links : Nat) (callee : Value)
    (args : List Value) : (invokeWithin host links callee args).Fails IsOrdinaryIn := by
  have store : (Act.store : Act σ Store).Fails IsOrdinaryIn :=
    Work.fails_of_ok fun _ => ⟨_, _, rfl⟩
  induction links generalizing callee args with
  | zero => exact fails_misuse _
  | succ links ih =>
    cases callee with
    | callable f =>
      rw [invokeWithin_callable]
      have tuple : (Act.ofAttempt (Attempt.tuple args) : Act σ Value).Fails IsOrdinaryIn :=
        Work.fails_of_ok fun _ => ⟨_, _, rfl⟩
      refine store.bind fun s => tuple.bind fun noted => Work.Fails.bind ?_ fun _ =>
        store.bind fun _ => ih _ _
      unfold noteCall
      split
      · exact Work.fails_of_ok fun _ => ⟨_, _, rfl⟩
      · exact (ih _ _).bind fun _ => Work.fails_of_ok fun _ => ⟨_, _, rfl⟩
      · exact fails_misuse _
    | routine r =>
      exact Work.Fails.bind (Work.fails_of_ok fun _ => ⟨_, _, rfl⟩) fun _ => ho.run r args
    | _ => exact store.bind fun s => fails_misuse _

theorem fails_invoke (ho : host.IsOrdinary) (callee : Value) (args : List Value) :
    (invoke host callee args).Fails IsOrdinaryIn :=
  Work.Fails.bind (Work.fails_of_ok fun _ => ⟨_, _, rfl⟩) fun _ => fails_invokeWithin ho _ _ _

/-- What the host ends a call of a rule with is ordinary. -/
theorem Form.HostFails.isOrdinary (ho : host.IsOrdinary) {f : Form} {os : List Outcome}
    {c : FaultRef} {w w' : World σ} (h : f.HostFails host w os c w') : IsOrdinaryIn c w' := by
  cases h with
  | invocation _ _ _ failed => exact fails_invoke ho _ _ _ _ _ failed
  | operatorTest _ failed => exact fails_truthTest ho _ _ _ _ failed
  | choiceTest _ failed => exact fails_truthTest ho _ _ _ _ failed

/-! ## What guards make of faults -/

/-- A guard lets a fault through, or it cannot show it. -/
theorem Form.runOn_guard_eq_error {f : Form} {c e : FaultRef} {w w' : World σ}
    (h : (f.guard c).runOn w = (.error e, w')) :
    (f.letsThrough (w.store.fault c).kind = true ∧ e = c ∧ w' = w) ∨
    f.letsThrough (w.store.fault c).kind = false ∧ ∃ m, w.store.namedText (.fault c) = .error m ∧
      (Act.ofAttempt (Attempt.misuse m) : Act σ FaultRef).runOn w = (.error e, w') := by
  rw [guard, guardFault, Work.runOn_ofRun] at h
  split at h
  · next lets =>
    cases h
    exact .inl ⟨lets, rfl, rfl⟩
  · next guarded =>
    split at h
    · cases h
    · next m unshown => exact .inr ⟨by simpa using guarded, m, unshown, h⟩

theorem Form.runOn_guard_of_unshown {f : Form} {c : FaultRef} {w : World σ} {m : Misuse}
    (guarded : f.letsThrough (w.store.fault c).kind = false)
    (unshown : w.store.namedText (.fault c) = .error m) :
    (f.guard c).runOn w = (Act.ofAttempt (Attempt.misuse m) : Act σ FaultRef).runOn w := by
  rw [guard, guardFault, Work.runOn_ofRun]
  simp only [guarded, Bool.false_eq_true, if_false, unshown]

theorem Form.runOn_guard_of_shown {f : Form} {c : FaultRef} {w : World σ} {named : String}
    (guarded : f.letsThrough (w.store.fault c).kind = false)
    (shown : w.store.namedText (.fault c) = .ok named) :
    (f.guard c).runOn w =
      (.ok ⟨w.store.faults.size⟩,
        { w with store := Attempt.withFailedCall w.store c (f.failureText named) }) := by
  rw [guard, guardFault, Work.runOn_ofRun]
  simp only [guarded, Bool.false_eq_true, if_false, shown]

/-- Of ordinary faults a guard lets only the report of a broken tree through. -/
theorem Form.eq_malformed_of_letsThrough {f : Form} {k : FaultKind} (ordinary : k.isOrdinary = true)
    (lets : f.letsThrough k = true) : k = .malformed := by
  unfold letsThrough at lets
  split at lets
  · simpa [FaultKind.escapesCall, ordinary] using lets
  · simp only [ordinary, Bool.not_true] at lets
    cases lets

theorem Form.letsThrough_of_ne_malformed {f : Form} {k : FaultKind}
    (ordinary : k.isOrdinary = true) (ne : k ≠ .malformed) : f.letsThrough k = false := by
  cases lets : f.letsThrough k with
  | false => rfl
  | true => exact absurd (eq_malformed_of_letsThrough ordinary lets) ne

/-! ## Where no guard stands -/

namespace Position

/-- The worlds in which the debug switch is asked for its truth during a visit: when the node is
entered, when its operator falls back, and when the node is left. -/
inductive AsksSwitch (host : Host σ) (p : Position σ) : World σ → Prop
  | entering {f} (push : p.run.frame.push p.value = .ok f) : p.AsksSwitch host p.run.world
  | fallingBack {lhs rhs o r} (form : p.form = .fallback .onFault lhs rhs)
      (progress : p.Progress host [o] r) (raised : o.isRaised = true) : p.AsksSwitch host r.world
  | leaving {o r} (settled : p.Settles host o r) : p.AsksSwitch host (r.noted p.value o)

/-- A fault gets out of a visit that no guard makes a failed call of: the report that the text of a
guarded fault cannot be written, what a recoverable fault's own way to be copied ends with, or what
the debug switch ends with. -/
inductive Unguarded (host : Host σ) (p : Position σ) (e : FaultRef) (w' : World σ) : Prop
  | unshown {os r c w m} (progress : p.Progress host os r)
      (failed : p.form.HostFails host r.world os c w)
      (guarded : p.form.letsThrough (w.store.fault c).kind = false)
      (unshown : w.store.namedText (.fault c) = .error m)
      (reported : (Act.ofAttempt (Attempt.misuse m) : Act σ FaultRef).runOn w = (.error e, w'))
  | copy {os r x way} (progress : p.Progress host os r) (form : p.form = .raise (.fault x))
      (locatable : (r.world.store.fault x).kind.isLocatable = true)
      (own : r.world.store.attribute? (.fault x) copyName = some way)
      (failed : (invoke host way []).runOn r.world = (.error e, w'))
  | switch {w} (asked : p.AsksSwitch host w)
      (failed : (truthTest host p.run.frame.debug).runOn w = (.error e, w'))

variable {p : Position σ} {e : FaultRef} {w w' : World σ}

theorem Escapes.unguarded (h : p.Escapes host e w) (sound : p.IsSound) (hk : host.KeepsTrees)
    (ho : host.IsOrdinary) (ne : (w.store.fault e).kind ≠ .malformed) :
    p.Unguarded host e w := by
  cases h with
  | refused push reported =>
    rw [Act.runOn_ofAttempt, Attempt.runOn_malformed] at reported
    cases reported
    exact absurd (congrArg Fault.kind (Store.fault_addFault_self _ _)) ne
  | entering push failed =>
    rw [(Frame.settings_of_push push).2.1] at failed
    exact .switch (.entering push) failed
  | leaving settled failed =>
    rw [(Frame.settings_of_push (settled.push_eq sound hk)).2.1] at failed
    exact .switch (.leaving settled) failed
  | @deciding os r progress breaks =>
    generalize hf : p.form = f at breaks
    cases breaks with
    | guard failed broken =>
      obtain ⟨lets, rfl, rfl⟩ | ⟨guarded, m, unshown, reported⟩ :=
        Form.runOn_guard_eq_error broken
      · exact absurd (Form.eq_malformed_of_letsThrough (failed.isOrdinary ho) lets) ne
      · subst hf
        exact .unshown progress failed guarded unshown reported
    | copy locatable own failed => exact .copy progress hf locatable own failed
    | switch raised failed =>
      rw [(Frame.settings_of_push (progress.push_eq sound hk).1).2.1] at failed
      exact .switch (.fallingBack hf progress raised) failed

theorem Unguarded.escapes (h : p.Unguarded host e w) (sound : p.IsSound) (hk : host.KeepsTrees) :
    p.Escapes host e w := by
  cases h with
  | unshown progress failed guarded unshown reported =>
    exact .deciding progress
      (.guard failed ((Form.runOn_guard_of_unshown guarded unshown).trans reported))
  | copy progress form locatable own failed =>
    refine .deciding progress ?_
    rw [form]
    exact .copy locatable own failed
  | switch asked failed =>
    cases asked with
    | entering push =>
      rw [← (Frame.settings_of_push push).2.1] at failed
      exact .entering push failed
    | fallingBack form progress raised =>
      rw [← (Frame.settings_of_push (progress.push_eq sound hk).1).2.1] at failed
      refine .deciding progress ?_
      rw [form]
      exact .switch raised failed
    | leaving settled =>
      rw [← (Frame.settings_of_push (settled.push_eq sound hk)).2.1] at failed
      exact .leaving settled failed

/-- Where the host fails with a fault that is guarded and can be shown, the rule raises a failed
call that has the fault as its cause. -/
theorem settles_of_shown {os : List Outcome} {r : Run σ} {c : FaultRef} {named : String}
    (progress : p.Progress host os r) (failed : p.form.HostFails host r.world os c w)
    (guarded : p.form.letsThrough (w.store.fault c).kind = false)
    (shown : w.store.namedText (.fault c) = .ok named) :
    ∃ o x s, p.Settles host o s ∧ o.result = .raised (.fault x) ∧
      (s.world.store.fault x).kind = .failedCall ∧
      (s.world.store.fault x).cause? = some (.fault c) := by
  let made : World σ :=
    { w with store := Attempt.withFailedCall w.store c (p.form.failureText named) }
  let raised : Run σ :=
    ⟨r.frame, { made with
      store := (made.store.addOutcome (.raised (.fault ⟨w.store.faults.size⟩))).2 }⟩
  have decided : (p.form.next host os).runOn r =
      (.ok (.finish ⟨⟨made.store.outcomes.size⟩, .raised (.fault ⟨w.store.faults.size⟩)⟩),
        raised) := by
    rw [failed.next, runOn_make_eq_ok]
    exact ⟨Work.runOn_bind_ok (Form.runOn_guard_of_shown guarded shown) _, rfl⟩
  have cell := Attempt.fault_withFailedCall w.store c (p.form.failureText named)
  refine ⟨_, ⟨w.store.faults.size⟩, raised, ⟨os, r, progress, .inr decided⟩, rfl, ?_, ?_⟩
  · exact congrArg Fault.kind cell
  · exact congrArg Fault.cause? cell

end Position

/-- While the host ends with ordinary faults only, whatever else than the report of a broken tree an
evaluation ends with has got out where no guard stands, and everything that gets out there is what
the evaluation ends with. And wherever the host fails with something else than such a report that
can be shown, the rule raises a failed call with the fault as its cause. -/
theorem runOn_evaluate_of_ordinary (hk : host.KeepsTrees) (ho : host.IsOrdinary) {q : Request}
    {root : NodeRef} {w : World σ} (tree : w.store.IsTree root) :
    (∀ e w', (evaluate host q (.node root)).runOn w = (.error e, w') →
      (w'.store.fault e).kind = .malformed ∨
        ∃ p, (Position.start q root w).Reaches host p ∧ p.Unguarded host e w') ∧
    (∀ p e w', (Position.start q root w).Reaches host p → p.Unguarded host e w' →
      (evaluate host q (.node root)).runOn w = (.error e, w')) ∧
    (∀ p os r c w₁ named, (Position.start q root w).Reaches host p → p.Progress host os r →
      p.form.HostFails host r.world os c w₁ → (w₁.store.fault c).kind ≠ .malformed →
      w₁.store.namedText (.fault c) = .ok named →
      ∃ o x s, p.Settles host o s ∧ o.result = .raised (.fault x) ∧
        (s.world.store.fault x).kind = .failedCall ∧
        (s.world.store.fault x).cause? = some (.fault c)) := by
  have sound := Position.isSound_start q tree
  refine ⟨fun e w' h => ?_, fun p e w' reached unguarded => ?_, ?_⟩
  · obtain ⟨p, reached, escapes⟩ := (runOn_evaluate_eq_error_iff hk tree).1 h
    by_cases malformed : (w'.store.fault e).kind = .malformed
    · exact .inl malformed
    · have psound := Position.isSound_of_reaches reached sound hk
      exact .inr ⟨p, reached, escapes.unguarded psound hk ho malformed⟩
  · have psound := Position.isSound_of_reaches reached sound hk
    exact (runOn_evaluate_eq_error_iff hk tree).2 ⟨p, reached, unguarded.escapes psound hk⟩
  · intro p os r c w₁ named reached progress failed ne shown
    have guarded : p.form.letsThrough (w₁.store.fault c).kind = false :=
      Form.letsThrough_of_ne_malformed (failed.isOrdinary ho) ne
    exact Position.settles_of_shown progress failed guarded shown

/-- A host whose objects answer a truth test with the first fault, unless it is an interruption. -/
def refusingHost : Host Unit :=
  ⟨fun _ _ w => (.ok .null, w),
    fun _ w => (if (w.store.fault ⟨0⟩).kind.isOrdinary then .error ⟨0⟩ else .ok true, w)⟩

/-- An operator that tests an object. -/
def testingTree : Attempt NodeRef :=
  Attempt.doubled (.literal (.object ⟨0⟩)) .onFalse .null

/-- A store with a fault that cannot be shown: its argument is a callable that was given null in the
place of its list of calls. -/
def muteStore : Store :=
  { Store.empty with
    callables := #[⟨⟨0⟩, .routine ⟨0⟩, .str "mute" Store.noStamp, .null, []⟩]
    faults := #[⟨.badValue, .tuple [.callable ⟨0⟩] Store.noStamp, .null, .null, []⟩] }

/-- The world in which the tree was made. -/
def muteWorld : World Unit :=
  ⟨(testingTree.runOn muteStore).2, .empty, #[], ()⟩

theorem keepsTrees_refusingHost : refusingHost.KeepsTrees :=
  ⟨fun _ _ _ => le_refl _, fun _ _ => le_refl _⟩

theorem isOrdinary_refusingHost : refusingHost.IsOrdinary := by
  refine ⟨fun r args => nofun, fun o w e w' h => ?_⟩
  by_cases ordinary : (w.store.fault ⟨0⟩).kind.isOrdinary = true
  · have ends : (Work.ofRun (refusingHost.truth o)).runOn w = (.error ⟨0⟩, w) := by
      simp [refusingHost, ordinary]
    rw [ends] at h
    cases h
    exact ordinary
  · have ends : (Work.ofRun (refusingHost.truth o)).runOn w = (.ok true, w) := by
      simp [refusingHost, ordinary]
    rw [ends] at h
    cases h

/-- An evaluation that ends with the report of a misuse, although the host raises only ordinary
faults and the tree is in order. -/
theorem runOn_evaluate_of_unshown :
    refusingHost.KeepsTrees ∧ refusingHost.IsOrdinary ∧ muteWorld.store.IsTree ⟨1⟩ ∧
    ∃ e w', (evaluate refusingHost .standard (.node ⟨1⟩)).runOn muteWorld = (.error e, w') ∧
      (w'.store.fault e).kind = .badType ∧
      ∃ p, (Position.start .standard ⟨1⟩ muteWorld).Reaches refusingHost p ∧
        p.Unguarded refusingHost e w' := by
  have made : testingTree.runOn muteStore = (.ok ⟨1⟩, muteWorld.store) := rfl
  have tree : muteWorld.store.IsTree ⟨1⟩ :=
    (Attempt.isBuilt_of_doubled (Store.knows_all rfl) (by decide) made).tree
  obtain ⟨w', ends, kind⟩ : ∃ w',
      (evaluate refusingHost .standard (.node ⟨1⟩)).runOn muteWorld = (.error ⟨1⟩, w') ∧
        (w'.store.fault ⟨1⟩).kind = .badType := ⟨_, rfl, rfl⟩
  have cases := (runOn_evaluate_of_ordinary keepsTrees_refusingHost isOrdinary_refusingHost
    tree).1 _ _ ends
  refine ⟨keepsTrees_refusingHost, isOrdinary_refusingHost, tree, ⟨1⟩, w', ends, kind, ?_⟩
  refine cases.resolve_left ?_
  rw [kind]
  decide

end Fallback
