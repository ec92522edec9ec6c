import Fallback.Evaluation
import Mathlib.Logic.Relation

/-!
What evaluation changes in the world.

`Store.Change` lists the changes that evaluation makes to the store on its own while it applies a
rule; every one of them adds something. `Change` has these and whatever the host makes of the world
when a routine runs or a host object tells its truth; `Run.Change` has the debug log besides. Each
function of the evaluator that works in the world is shown here to make nothing but changes, so what
a single change keeps is kept by all of them. The attempts that end with a fault, or make one, are
given as equations: which fault it is, and which store is left.
-/
namespace Fallback

open Relation (ReflTransGen)

/-! ## Work that makes changes -/

/-- The work leads from every state by changes of one kind to the state that it leaves. -/
def Work.Makes {S α : Type} (R : S → S → Prop) (x : Work S α) : Prop :=
  ∀ s, ReflTransGen R s (x.runOn s).2

namespace Work

variable {S T α β : Type} {R : S → S → Prop}

theorem makes_pure (a : α) : (pure a : Work S α).Makes R := fun _ => .refl

theorem makes_throw (e : FaultRef) : (throw e : Work S α).Makes R := fun _ => .refl

theorem makes_get : (get : Work S S).Makes R := fun _ => .refl

theorem Makes.mono {R' : S → S → Prop} {x : Work S α} (hx : x.Makes R)
    (h : ∀ s t, R s t → R' s t) : x.Makes R' :=
  fun s => ReflTransGen.mono h _ _ (hx s)

theorem makes_ofRun {f : S → Except FaultRef α × S} (h : ∀ s, R s (f s).2) :
    (ofRun f).Makes R := fun s => .single (h s)

theorem makes_modify {f : S → S} (h : ∀ s, R s (f s)) : (modify f : Work S PUnit).Makes R :=
  fun s => .single (h s)

theorem makes_modifyGet {f : S → α × S} (h : ∀ s, R s (f s).2) :
    (modifyGet f : Work S α).Makes R := fun s => .single (h s)

theorem Makes.of_run {x : Work S α} (hx : x.Makes R) {s t : S} {result : Except FaultRef α}
    (h : x.runOn s = (result, t)) : ReflTransGen R s t := by
  have changes := hx s
  rw [h] at changes
  exact changes

theorem Makes.guarded {x : Work S α} (hx : x.Makes R) : x.guarded.Makes R := hx

theorem Makes.bind {x : Work S α} {f : α → Work S β} (hx : x.Makes R)
    (hf : ∀ a, (f a).Makes R) : (x >>= f).Makes R := by
  intro s
  have h := hx s
  rw [runOn_bind]
  rcases hxs : x.runOn s with ⟨e | a, t⟩
  · simpa [hxs] using h
  · rw [hxs] at h
    exact h.trans (hf a t)

theorem makes_ite {c : Prop} [Decidable c] {x y : Work S α} (hx : x.Makes R) (hy : y.Makes R) :
    (if c then x else y).Makes R := by
  split
  · exact hx
  · exact hy

end Work

/-! ## Changes of the store -/

/-- One change that evaluation itself makes to the store. -/
inductive Store.Change (s : Store) : Store → Prop
  | stamp : s.Change s.addStamp.2
  | fault (e : Fault) : s.Change (s.addFault e).2
  | outcome (r : Result) : s.Change (s.addOutcome r).2
  | item (stamp : Nat) (v : Value) : s.Change (s.addItem stamp v)
  | invocation (f : CallableRef) (args : List Value) : s.Change (s.addInvocation f args)

/-- A misuse is neither the report of a broken tree nor a key that is missing. -/
theorem Misuse.kind_ne (m : Misuse) : m.kind ≠ .malformed ∧ m.kind ≠ .missingKey := by
  constructor <;>
  · intro same
    cases m <;> cases same

namespace Attempt

open Work

/-- The fault that `newFaultAt` makes on a store. -/
def faultAt (s : Store) (kind : FaultKind) (place : Value) (message : String) : Fault :=
  ⟨kind, .tuple [.str message s.nextStamp] (s.nextStamp + 1), .null, place, []⟩

/-- The fault that stands for a call that failed because of another fault. -/
def callFault (cause message : Value) (stamp : Nat) : Fault :=
  ⟨.failedCall, .tuple [message] stamp, cause, .null, [(Fault.causeName, cause)]⟩

theorem runOn_newMessage (kind : FaultKind) (message : String) (s : Store) :
    (newMessage kind message).runOn s =
      (.ok ⟨s.faults.size⟩,
        (s.addStamp.2.addStamp.2.addFault (faultAt s kind .null message)).2) := rfl

theorem runOn_malformed {α : Type} (place : Value) (message : String) (s : Store) :
    (malformed place message : Attempt α).runOn s =
      (.error ⟨s.faults.size⟩,
        (s.addStamp.2.addStamp.2.addFault (faultAt s .malformed place message)).2) := rfl

theorem runOn_misuse {α : Type} (m : Misuse) (s : Store) :
    (misuse m : Attempt α).runOn s =
      (.error ⟨s.faults.size⟩,
        (s.addStamp.2.addStamp.2.addFault (faultAt s m.kind .null m.message)).2) := rfl

theorem runOn_typeName (v : Value) (s : Store) :
    (typeName v).runOn s = (.ok (s.typeName v), s) := rfl

theorem runOn_ask {α : Type} (answer : Store → Except Misuse α) (s : Store) :
    (ask answer).runOn s =
      match answer s with
      | .ok a => (.ok a, s)
      | .error m => (misuse m : Attempt α).runOn s := by
  simp only [ask, runOn_bind, runOn_get]
  cases answer s <;> rfl

theorem runOn_newCallFailure (c : FaultRef) (message : Value) (s : Store) :
    (newCallFailure (.fault c) message).runOn s =
      (.ok ⟨s.faults.size⟩,
        (s.addStamp.2.addFault (callFault (.fault c) message s.nextStamp)).2) := by
  let bare : Fault := { callFault (.fault c) message s.nextStamp with chained := .null }
  let made := s.addStamp.2.addFault bare
  have chain : made.2.setFault made.1 { made.2.fault made.1 with chained := .fault c } =
      (s.addStamp.2.addFault (callFault (.fault c) message s.nextStamp)).2 := by
    rw [Store.setFault_addFault, Store.fault_addFault_self]
    rfl
  exact Prod.ext rfl chain

/-- The store in which a failed call because of a fault was made, with a message. -/
def withFailedCall (s : Store) (c : FaultRef) (message : String) : Store :=
  (s.addStamp.2.addStamp.2.addFault
    (callFault (.fault c) (.str message s.nextStamp) (s.nextStamp + 1))).2

theorem runOn_callFailure (c : FaultRef) (s : Store) :
    (callFailure (.fault c)).runOn s =
      match s.namedText (.fault c) with
      | .ok named => (.ok ⟨s.faults.size⟩, withFailedCall s c named)
      | .error m => (misuse m : Attempt FaultRef).runOn s := by
  rw [callFailure, runOn_bind, runOn_ask]
  rcases s.namedText (.fault c) with m | named
  · rfl
  · exact runOn_newCallFailure c (.str named s.nextStamp) s.addStamp.2

theorem runOn_testFailure (c : FaultRef) (s : Store) :
    (truthOrFailure.failure (.fault c)).runOn s =
      match s.namedText (.fault c) with
      | .ok named => (.ok ⟨s.faults.size⟩, withFailedCall s c ("truth test failed: " ++ named))
      | .error m => (misuse m : Attempt FaultRef).runOn s := by
  rw [truthOrFailure.failure, runOn_bind, runOn_ask]
  rcases s.namedText (.fault c) with m | named
  · rfl
  · exact runOn_newCallFailure c (.str ("truth test failed: " ++ named) s.nextStamp) s.addStamp.2

variable {α : Type}

theorem makes_make {add : Store → α × Store} (h : ∀ s : Store, s.Change (add s).2) :
    (make add).Makes Store.Change :=
  makes_modifyGet h

theorem makes_stamp : (make Store.addStamp).Makes Store.Change :=
  makes_make fun _ => .stamp

theorem makes_text (t : String) : (text t).Makes Store.Change :=
  makes_stamp.bind fun _ => makes_pure _

theorem makes_tuple (items : List Value) : (tuple items).Makes Store.Change :=
  makes_stamp.bind fun _ => makes_pure _

theorem makes_newFault (kind : FaultKind) (args place : Value) (extras : Attributes) :
    (newFault kind args place extras).Makes Store.Change :=
  makes_make fun _ => .fault _

theorem makes_newFaultAt (kind : FaultKind) (place : Value) (message : String) :
    (newFaultAt kind place message).Makes Store.Change :=
  (makes_text _).bind fun _ => (makes_tuple _).bind fun _ => makes_newFault _ _ _ _

theorem makes_fail (kind : FaultKind) (message : String) :
    (fail kind message : Attempt α).Makes Store.Change :=
  (makes_newFaultAt _ _ _).bind fun _ => makes_throw _

theorem makes_misuse (m : Misuse) : (misuse m : Attempt α).Makes Store.Change :=
  makes_fail _ _

theorem makes_ask (answer : Store → Except Misuse α) : (ask answer).Makes Store.Change := by
  intro s
  rw [runOn_ask]
  cases answer s with
  | ok a => exact .refl
  | error m => exact makes_misuse m s

theorem makes_copyFault (e : FaultRef) : (copyFault e).Makes Store.Change :=
  makes_make fun _ => .fault _

theorem makes_unbound (name : Value) : (unbound name).Makes Store.Change :=
  (makes_ask _).bind fun _ => (makes_text _).bind fun _ => (makes_tuple _).bind fun _ =>
    makes_newFault _ _ _ _

theorem makes_newCallFailure (c : FaultRef) (message : Value) :
    (newCallFailure (.fault c) message).Makes Store.Change := by
  intro s
  rw [runOn_newCallFailure]
  exact (ReflTransGen.single .stamp).tail (.fault _)

theorem makes_callFailure (c : FaultRef) : (callFailure (.fault c)).Makes Store.Change :=
  (makes_ask _).bind fun _ => (makes_text _).bind fun _ => makes_newCallFailure c _

theorem makes_testFailure (c : FaultRef) :
    (truthOrFailure.failure (.fault c)).Makes Store.Change :=
  (makes_ask _).bind fun _ => (makes_text _).bind fun _ => makes_newCallFailure c _

theorem makes_newOutcome (r : Result) : (newOutcome r).Makes Store.Change :=
  (makes_make fun _ => .outcome r).bind fun _ => makes_pure _

end Attempt

/-! ## Changes of the world -/

/-- One change of the world while a rule is applied: of the store, or whatever a routine or the
truth test of a host object makes of it. -/
inductive Change {σ : Type} (host : Host σ) (w : World σ) : World σ → Prop
  | store {s : Store} (h : w.store.Change s) : Change host w { w with store := s }
  | run (r : RoutineRef) (args : List Value) : Change host w (host.run r args w).2
  | truth (o : ObjectRef) : Change host w (host.truth o w).2

/-- Work in the world as the rules do it: put together from attempts that make changes, readings of
the store and calls of the host. -/
inductive Act.Composed {σ : Type} (host : Host σ) : {α : Type} → Act σ α → Prop
  | pure {α : Type} (a : α) : Composed host (pure a)
  | throw {α : Type} (e : FaultRef) : Composed host (throw e : Act σ α)
  | store : Composed host Act.store
  | attempt {α : Type} {x : Attempt α} (h : x.Makes Store.Change) :
      Composed host (Act.ofAttempt x)
  | modify {f : Store → Store} (h : ∀ s, ReflTransGen Store.Change s (f s)) :
      Composed host (Act.modifyStore f)
  | run (r : RoutineRef) (args : List Value) : Composed host (Work.ofRun (host.run r args))
  | truth (o : ObjectRef) : Composed host (Work.ofRun (host.truth o))
  | guarded {α : Type} {x : Act σ α} (hx : Composed host x) : Composed host (Work.guarded x)
  | bind {α β : Type} {x : Act σ α} {f : α → Act σ β} (hx : Composed host x)
      (hf : ∀ a, Composed host (f a)) : Composed host (x >>= f)

/-- The same work put together for two hosts. -/
inductive Act.Matched {σ τ : Type} (host : Host σ) (host' : Host τ) :
    {α : Type} → Act σ α → Act τ α → Prop
  | pure {α : Type} (a : α) : Matched host host' (pure a) (pure a)
  | throw {α : Type} (e : FaultRef) : Matched host host' (throw e : Act σ α) (throw e)
  | store : Matched host host' Act.store Act.store
  | attempt {α : Type} {x : Attempt α} (h : x.Makes Store.Change) :
      Matched host host' (Act.ofAttempt x) (Act.ofAttempt x)
  | modify {f : Store → Store} (h : ∀ s, ReflTransGen Store.Change s (f s)) :
      Matched host host' (Act.modifyStore f) (Act.modifyStore f)
  | run (r : RoutineRef) (args : List Value) :
      Matched host host' (Work.ofRun (host.run r args)) (Work.ofRun (host'.run r args))
  | truth (o : ObjectRef) :
      Matched host host' (Work.ofRun (host.truth o)) (Work.ofRun (host'.truth o))
  | guarded {α : Type} {x : Act σ α} {x' : Act τ α} (hx : Matched host host' x x') :
      Matched host host' (Work.guarded x) (Work.guarded x')
  | bind {α β : Type} {x : Act σ α} {x' : Act τ α} {f : α → Act σ β} {f' : α → Act τ β}
      (hx : Matched host host' x x') (hf : ∀ a, Matched host host' (f a) (f' a)) :
      Matched host host' (x >>= f) (x' >>= f')

section Acts

open Work

variable {σ τ α : Type} {host : Host σ} {host' : Host τ}

theorem Change.reflTransGen_store {w : World σ} {s : Store}
    (h : ReflTransGen Store.Change w.store s) :
    ReflTransGen (Change host) w { w with store := s } := by
  induction h with
  | refl => exact .refl
  | tail _ step ih => exact ih.tail (.store step)

namespace Act

/-- Such work makes nothing but changes. -/
theorem Composed.makes {x : Act σ α} (hx : Composed host x) : x.Makes (Change host) := by
  induction hx with
  | pure a => exact makes_pure a
  | throw e => exact makes_throw e
  | store => exact makes_get.bind fun _ => makes_pure _
  | attempt h => exact fun w => Change.reflTransGen_store (h w.store)
  | modify h => exact fun w => Change.reflTransGen_store (h w.store)
  | run r args => exact makes_ofRun fun w => .run r args
  | truth o => exact makes_ofRun fun w => .truth o
  | guarded _ ih => exact ih.guarded
  | bind _ _ ihx ihf => exact ihx.bind ihf

/-- Work that is put together for two hosts is put together for the first. -/
theorem Matched.composed {x : Act σ α} {x' : Act τ α} (h : Matched host host' x x') :
    Composed host x := by
  induction h with
  | pure a => exact .pure a
  | throw e => exact .throw e
  | store => exact .store
  | attempt h => exact .attempt h
  | modify h => exact .modify h
  | run r args => exact .run r args
  | truth o => exact .truth o
  | guarded _ ih => exact .guarded ih
  | bind _ _ ihx ihf => exact .bind ihx ihf

theorem Matched.ite {c : Prop} [Decidable c] {x y : Act σ α} {x' y' : Act τ α}
    (hx : Matched host host' x x') (hy : Matched host host' y y') :
    Matched host host' (if c then x else y) (if c then x' else y') := by
  split
  · exact hx
  · exact hy

theorem matched_success (v : Value) : Matched host host' (success v) (success v) :=
  .attempt (Attempt.makes_newOutcome _)

theorem matched_raised (e : Value) : Matched host host' (raised e) (raised e) :=
  .attempt (Attempt.makes_newOutcome _)

theorem matched_raisedFault {x : Attempt FaultRef} (hx : x.Makes Store.Change) :
    Matched host host' (raisedFault x) (raisedFault x) :=
  .bind (.attempt hx) fun _ => matched_raised _

theorem composed_success (v : Value) : Composed host (success v) :=
  (matched_success v : Matched host host _ _).composed

theorem composed_raised (e : Value) : Composed host (raised e) :=
  (matched_raised e : Matched host host _ _).composed

theorem composed_raisedFault {x : Attempt FaultRef} (hx : x.Makes Store.Change) :
    Composed host (raisedFault x) :=
  (matched_raisedFault hx : Matched host host _ _).composed

end Act

open Act

theorem matched_truthTest (v : Value) :
    Matched host host' (truthTest host v) (truthTest host' v) := by
  cases v with
  | object o => exact .truth o
  | _ => exact .bind .store fun _ => .pure _

theorem matched_truthOrFailure (v : Value) :
    Matched host host' (truthOrFailure host v) (truthOrFailure host' v) := by
  refine .bind (matched_truthTest v).guarded fun result => ?_
  cases result with
  | ok b => exact .pure _
  | error e =>
    refine .bind .store fun s => .ite ?_ (.throw e)
    exact .bind (.attempt (Attempt.makes_testFailure e)) fun _ => .pure _

theorem matched_noteInvocation (r : RoutineRef) (args : List Value) :
    let note (s : Store) : Store :=
      match s.ownerOf? r with
      | some f => s.addInvocation f args
      | none => s
    Matched host host' (modifyStore note) (modifyStore note) := by
  refine .modify fun s => ?_
  cases s.ownerOf? r with
  | none => exact .refl
  | some f => exact .single (.invocation f args)

/-- A callable notes the arguments of a call: on its list, or through what was put in the place of
the list. -/
def noteCall (host : Host σ) (links : Nat) (s : Store) (f : CallableRef) (noted : Value) :
    Act σ Unit :=
  match (s.callable f).calls, s.attribute? (s.callable f).calls "append" with
  | .list _ stamp, _ => modifyStore fun s => s.addItem stamp noted
  | _, some adder => invokeWithin host links adder [noted] >>= fun _ => return ()
  | _, none =>
    ofAttempt (Attempt.misuse (.missingAttribute (s.hostTypeName (s.callable f).calls) "append"))

/-- A callable notes the call and runs its routine. -/
theorem invokeWithin_callable (links : Nat) (f : CallableRef) (args : List Value) :
    invokeWithin host (links + 1) (.callable f) args = (do
      let s ← Act.store
      let noted ← ofAttempt (Attempt.tuple args)
      noteCall host links s f noted
      invokeWithin host links ((← Act.store).callable f).routine args) := by
  rw [invokeWithin]
  refine bind_congr fun s => bind_congr fun noted => ?_
  dsimp only [noteCall]
  generalize (s.callable f).calls = calls
  generalize s.attribute? calls "append" = adder
  cases calls with
  | list => rfl
  | _ =>
    cases adder with
    | none => rfl
    | some adder => simp only [bind_assoc, pure_bind]

theorem matched_invokeWithin (links : Nat) (callee : Value) (args : List Value) :
    Matched host host' (invokeWithin host links callee args)
      (invokeWithin host' links callee args) := by
  induction links generalizing callee args with
  | zero => exact .attempt (Attempt.makes_misuse _)
  | succ links ih =>
    cases callee with
    | callable f =>
      rw [invokeWithin_callable, invokeWithin_callable]
      refine .bind .store fun s => .bind (.attempt (Attempt.makes_tuple args)) fun noted =>
        .bind ?_ fun _ => .bind .store fun _ => ih _ _
      unfold noteCall
      split
      · exact .modify fun _ => .single (.item _ _)
      · exact .bind (ih _ _) fun _ => .pure _
      · exact .attempt (Attempt.makes_misuse _)
    | routine r => exact .bind (matched_noteInvocation r args) fun _ => .run _ _
    | _ => exact .bind .store fun _ => .attempt (Attempt.makes_misuse _)

theorem matched_invoke (callee : Value) (args : List Value) :
    Matched host host' (invoke host callee args) (invoke host' callee args) :=
  .bind .store fun _ => matched_invokeWithin _ _ _

theorem matched_callValue (callee : Value) (args : List Value) :
    Matched host host' (callValue host callee args) (callValue host' callee args) := by
  refine .bind .store fun s => .ite ?_ ?_
  · refine .bind (matched_invoke callee args).guarded fun result => ?_
    cases result with
    | ok v => exact matched_success v
    | error e =>
      exact .bind .store fun _ =>
        .ite (.throw e) (matched_raisedFault (Attempt.makes_callFailure e))
  · exact .bind (.attempt (Attempt.makes_newFaultAt _ _ _)) fun cause =>
      matched_raisedFault (Attempt.makes_callFailure cause)

theorem matched_lookup (vars : Environment) (name : Value) :
    Matched host host' (lookup vars name) (lookup vars name) := by
  refine .bind (.attempt (Attempt.makes_ask _)) fun _ => .bind .store fun s => ?_
  dsimp only
  split
  · exact matched_success _
  · exact matched_raisedFault (Attempt.makes_unbound name)

theorem matched_copyOf (e : FaultRef) :
    Matched host host' (copyOf host e) (copyOf host' e) := by
  refine .bind .store fun s => ?_
  split
  · exact matched_invoke _ _
  · exact .bind (.attempt (Attempt.makes_copyFault e)) fun _ => .pure _

theorem matched_evalRaise (exception : Value) :
    Matched host host' (evalRaise host exception) (evalRaise host' exception) := by
  cases exception with
  | fault e =>
    refine .bind .store fun s => .ite ?_ (matched_raised _)
    exact .bind (matched_copyOf _) fun _ => matched_raised _
  | _ => exact matched_raised _

theorem composed_truthTest (v : Value) : Composed host (truthTest host v) :=
  (matched_truthTest v : Matched host host _ _).composed

theorem composed_truthOrFailure (v : Value) : Composed host (truthOrFailure host v) :=
  (matched_truthOrFailure v : Matched host host _ _).composed

theorem composed_invoke (callee : Value) (args : List Value) :
    Composed host (invoke host callee args) :=
  (matched_invoke callee args : Matched host host _ _).composed

theorem composed_callValue (callee : Value) (args : List Value) :
    Composed host (callValue host callee args) :=
  (matched_callValue callee args : Matched host host _ _).composed

theorem composed_lookup (vars : Environment) (name : Value) :
    Composed host (lookup vars name) :=
  (matched_lookup vars name : Matched host host _ _).composed

theorem composed_evalRaise (exception : Value) : Composed host (evalRaise host exception) :=
  (matched_evalRaise exception : Matched host host _ _).composed

end Acts

/-! ## Changes within an evaluation -/

/-- One change within an evaluation that opens and closes nothing: of the world, or a debug
record. -/
inductive Run.Change {σ : Type} (host : Host σ) (r : Run σ) : Run σ → Prop
  | world {w : World σ} (h : Fallback.Change host r.world w) : r.Change host { r with world := w }
  | log (record : LogRecord) :
    r.Change host { r with world := { r.world with log := r.world.log.push record } }

section Evals

open Work

variable {σ α : Type} {host : Host σ}

theorem Run.Change.frame_eq {r r' : Run σ} (h : ReflTransGen (Run.Change host) r r') :
    r'.frame = r.frame := by
  induction h with
  | refl => rfl
  | tail _ step ih => cases step <;> exact ih

theorem Work.Makes.eval {x : Act σ α} (hx : x.Makes (Change host)) :
    (Eval.ofAct x).Makes (Run.Change host) := by
  intro r
  have lift : ∀ {w : World σ}, ReflTransGen (Change host) r.world w →
      ReflTransGen (Run.Change host) r { r with world := w } := by
    intro w h
    induction h with
    | refl => exact .refl
    | tail _ step ih => exact ih.tail (.world step)
  exact lift (hx r.world)

theorem Eval.makes_frame : (Eval.frame : Eval σ Frame).Makes (Run.Change host) :=
  makes_get.bind fun _ => makes_pure _

theorem makes_debug (record : Frame → LogRecord) :
    (debug host record).Makes (Run.Change host) := by
  unfold debug
  refine Eval.makes_frame.bind fun f => (composed_truthTest f.debug).makes.eval.bind fun b => ?_
  exact makes_ite (makes_modify fun r => .log _) (makes_pure _)

end Evals

end Fallback
