import Fallback.Proofs.Failure
import Fallback.Proofs.Parallel

/-!
Hosts that treat alike what is alike.

A `Likeness` says what counts as alike besides the store: which nodes stand for each other in a
trace, and which states of the host are the same up to a pairing. `World.Like` puts all of it
together; the debug logs have to be equal. An outcome in a trace may also be one that does not
count: it is the same reference on both sides, but nothing is said about its result.

`Host.Respects` is the assumption that a routine and a truth test do the same in like worlds. Under
it every function of the evaluator that works in the world is parallel to itself.
-/
namespace Fallback

open List (Forall₂)

variable {σ α α' : Type} {ρ ρ' : Pairing}

/-! ## Worlds -/

/-- Which nodes stand for each other in a trace, and which states of the host are the same up to a
pairing. -/
structure Likeness (σ : Type) where
  nodes : NodeRef → NodeRef → Prop
  states : Pairing → σ → σ → Prop
  mono {ρ ρ' : Pairing} (le : ρ ≤ ρ') {a b : σ} (h : states ρ a b) : states ρ' a b

variable {L : Likeness σ}

/-- The values are like one another, or they are nodes that stand for each other. -/
def Likeness.Node (L : Likeness σ) (ρ : Pairing) (v w : Value) : Prop :=
  v.Like ρ w ∨ ∃ n m, v = .node n ∧ w = .node m ∧ L.nodes n m

/-- The values are like one another, or they are the same outcome. -/
def Value.Shares (ρ : Pairing) (v w : Value) : Prop :=
  v.Like ρ w ∨ ∃ o, v = .outcome o ∧ w = .outcome o

/-- The events are of the same kind and depth, their nodes stand for each other, and so do their
outcomes. -/
inductive TraceEvent.Like (L : Likeness σ) (ρ : Pairing) : TraceEvent → TraceEvent → Prop
  | enter {v w : Value} (depth : Int) (nodes : L.Node ρ v w) :
    Like L ρ (.enter v depth) (.enter w depth)
  | exit {v w o p : Value} (depth : Int) (nodes : L.Node ρ v w) (outcomes : o.Shares ρ p) :
    Like L ρ (.exit v depth o) (.exit w depth p)

/-- The events of the traces stand for each other one by one, and the depths are the same. -/
structure Trace.Like (L : Likeness σ) (ρ : Pairing) (t u : Trace) : Prop where
  events : Forall₂ (TraceEvent.Like L ρ) t.events.toList u.events.toList
  depth : t.depth = u.depth

/-- The worlds are the same up to a pairing, and the same debug records were written in them. -/
structure World.Like (L : Likeness σ) (ρ : Pairing) (w w' : World σ) : Prop where
  store : w.store.Like ρ w'.store
  trace : w.trace.Like L ρ w'.trace
  log : w.log = w'.log
  host : L.states ρ w.host w'.host

section Mono

variable (le : ρ ≤ ρ')
include le

theorem Likeness.Node.mono {v w : Value} (h : L.Node ρ v w) : L.Node ρ' v w :=
  h.imp (·.mono le) id

theorem TraceEvent.Like.mono {e f : TraceEvent} (h : e.Like L ρ f) : e.Like L ρ' f := by
  cases h with
  | enter depth nodes => exact .enter depth (nodes.mono le)
  | exit depth nodes outcomes => exact .exit depth (nodes.mono le) (outcomes.imp (·.mono le) id)

theorem Trace.Like.mono {t u : Trace} (h : t.Like L ρ u) : t.Like L ρ' u :=
  ⟨h.events.imp fun _ _ like => like.mono le, h.depth⟩

/-- The stores may become like under a pairing that says more. -/
theorem World.Like.withStore {w w' : World σ} (h : w.Like L ρ w') {s t : Store}
    (stores : s.Like ρ' t) : World.Like L ρ' { w with store := s } { w' with store := t } :=
  ⟨stores, h.trace.mono le, h.log, L.mono le h.host⟩

end Mono

/-- The host does the same in like worlds, with like arguments. -/
structure Host.Respects (host : Host σ) (L : Likeness σ) : Prop where
  run {ρ : Pairing} {w w' : World σ} (alike : w.Like L ρ w') (r : RoutineRef) {vs ws : List Value}
    (args : Value.AllLike ρ vs ws) :
    Matches (World.Like L) ρ Value.Like (host.run r vs w) (host.run r ws w')
  truth {ρ : Pairing} {w w' : World σ} (alike : w.Like L ρ w') (o : ObjectRef) :
    Matches (World.Like L) ρ Pairing.Equal (host.truth o w) (host.truth o w')

/-- Nodes stand for each other as a relation says, and the host has nothing to remember. -/
def Likeness.ofNodes (nodes : NodeRef → NodeRef → Prop) : Likeness Unit :=
  ⟨nodes, fun _ _ _ => True, fun _ _ _ _ => trivial⟩

theorem respects_idle (L : Likeness Unit) : Host.idle.Respects L :=
  ⟨fun alike _ _ _ _ => ⟨_, le_refl _, alike, .ok .null⟩,
    fun alike _ => ⟨_, le_refl _, alike, .ok rfl⟩⟩

/-! ## Acts -/

namespace Act

open Work

variable {R : Pairing → α → α' → Prop}

theorem parallel_ofAttempt {x : Attempt α} {x' : Attempt α'}
    (h : Parallel Store.Like ρ R x x') :
    Parallel (World.Like L) ρ R (ofAttempt x) (ofAttempt x') := by
  intro ρ₁ le w w' alike
  obtain ⟨ρ₂, le', stores, ends⟩ := h le alike.store
  exact ⟨ρ₂, le', alike.withStore le' stores, ends⟩

theorem parallel_store : Parallel (World.Like L) ρ Store.Like store store :=
  fun _ _ _ _ alike => ⟨_, le_refl _, alike, .ok alike.store⟩

theorem parallel_modifyStore {f f' : Store → Store}
    (h : ∀ {ρ₁ s t}, ρ ≤ ρ₁ → s.Like ρ₁ t → (f s).Like ρ₁ (f' t)) :
    Parallel (World.Like L) ρ Pairing.Equal (modifyStore f : Act σ Unit) (modifyStore f') :=
  fun _ le _ _ alike => ⟨_, le_refl _, alike.withStore (le_refl _) (h le alike.store), .ok rfl⟩

theorem parallel_success {v w : Value} (like : v.Like ρ w) :
    Parallel (World.Like L) ρ Outcome.Like (success v) (success w) :=
  parallel_ofAttempt (Attempt.parallel_newOutcome (.success like))

theorem parallel_raised {v w : Value} (like : v.Like ρ w) :
    Parallel (World.Like L) ρ Outcome.Like (raised v) (raised w) :=
  parallel_ofAttempt (Attempt.parallel_newOutcome (.raised like))

theorem parallel_raisedFault {x x' : Attempt FaultRef}
    (h : Parallel Store.Like ρ Pairing.faults x x') :
    Parallel (World.Like L) ρ Outcome.Like (raisedFault x) (raisedFault x') :=
  (parallel_ofAttempt h).bind fun _ paired => parallel_raised (.fault paired)

end Act

section Acts

open Work

variable {host : Host σ}

/-- The truth of like values is found in the same way. -/
theorem parallel_truthTest (respects : host.Respects L) {v w : Value} (like : v.Like ρ w) :
    Parallel (World.Like L) ρ Pairing.Equal (truthTest host v) (truthTest host w) := by
  have own : Parallel (World.Like L) ρ Pairing.Equal
      (do return (← Act.store).truth v : Act σ Bool) (do return (← Act.store).truth w) :=
    Act.parallel_store.bind fun le stores => .pure fun _ => stores.truth (like.mono le)
  cases like with
  | @plain v plain =>
    cases v with
    | object o => exact fun _ _ _ _ alike => respects.truth alike o
    | _ => exact own
  | _ => exact own

theorem parallel_truthOrFailure (respects : host.Respects L) {v w : Value} (like : v.Like ρ w) :
    Parallel (World.Like L) ρ (fun ρ₁ => ρ₁.Ends Eq) (truthOrFailure host v)
      (truthOrFailure host w) := by
  unfold truthOrFailure
  refine (parallel_truthTest respects like).guarded.bind fun le ends => ?_
  cases ends with
  | ok same => exact .pure fun _ => .ok same
  | @error e e' paired =>
    refine Act.parallel_store.bind fun le' stores => ?_
    have kinds := (stores.faults.like (le'.faults paired)).kind
    rw [kinds]
    refine .ite ?_ (.throw (le'.faults paired))
    refine (Act.parallel_ofAttempt (Attempt.parallel_testFailure (le'.faults paired))).bind
      fun _ failed => .pure fun le'' => .error (le''.faults failed)

/-- A routine was made for the same callable in like stores. -/
theorem Store.Like.ownerOf? {s t : Store} (h : s.Like ρ t) (r : RoutineRef) :
    s.ownerOf? r = t.ownerOf? r := by
  have lists : ∀ {fs gs : List Callable}, Forall₂ (Callable.Like ρ) fs gs →
      (fs.findIdx? fun f => f.own = r) = gs.findIdx? fun f => f.own = r := by
    intro fs gs all
    induction all with
    | nil => rfl
    | cons like _ ih => rw [List.findIdx?_cons, List.findIdx?_cons, ih, like.own]
  have arrays := lists h.rest.callables
  rw [← List.findIdx?_toArray, ← List.findIdx?_toArray] at arrays
  exact congrArg (Option.map CallableRef.mk) arrays

/-- A call is noted alike if what was put in the place of the list is invoked alike. -/
theorem parallel_noteCall {s t : Store} {links : Nat} (f : CallableRef) {v w : Value}
    (stores : s.Like ρ t) (le : ρ ≤ ρ') (noted : v.Like ρ' w)
    (invokes : ∀ {adder adder' : Value}, adder.Like ρ' adder' →
      Parallel (World.Like L) ρ' Value.Like (invokeWithin host links adder [v])
        (invokeWithin host links adder' [w])) :
    Parallel (World.Like L) ρ' Pairing.Equal (noteCall host links s f v)
      (noteCall host links t f w) := by
  have calls := (stores.rest.callable f).calls
  have adders := stores.attribute? calls "append"
  have types := stores.hostTypeName calls
  unfold noteCall
  generalize (s.callable f).calls = held at calls adders types
  generalize (t.callable f).calls = held' at calls adders types
  generalize s.attribute? held "append" = adder at adders
  generalize t.attribute? held' "append" = adder' at adders
  rw [types]
  have added (stamp : Nat) : Parallel (World.Like L) ρ' Pairing.Equal
      (Act.modifyStore fun s => s.addItem stamp v : Act σ Unit)
      (Act.modifyStore fun s => s.addItem stamp w) :=
    Act.parallel_modifyStore fun le alike => alike.addItem stamp (noted.mono le)
  have missing (m : Misuse) : Parallel (World.Like L) ρ' Pairing.Equal
      (Act.ofAttempt (Attempt.misuse m) : Act σ Unit) (Act.ofAttempt (Attempt.misuse m)) :=
    Act.parallel_ofAttempt (Attempt.parallel_misuse m)
  cases calls with
  | list stamp all => exact added stamp
  | plain plain =>
    cases held with
    | list => cases plain
    | _ =>
      cases adders with
      | none => exact missing _
      | some adder => exact (invokes (adder.mono le)).bind fun _ _ => .pure fun _ => rfl
  | _ =>
    cases adders with
    | none => exact missing _
    | some adder => exact (invokes (adder.mono le)).bind fun _ _ => .pure fun _ => rfl

theorem parallel_invokeWithin (respects : host.Respects L) (links : Nat) {v w : Value}
    {vs ws : List Value} (like : v.Like ρ w) (args : Value.AllLike ρ vs ws) :
    Parallel (World.Like L) ρ Value.Like (invokeWithin host links v vs)
      (invokeWithin host links w ws) := by
  induction links generalizing ρ v w vs ws with
  | zero => exact Act.parallel_ofAttempt (Attempt.parallel_misuse .tooDeep)
  | succ links ih =>
    have refused : Parallel (World.Like L) ρ Value.Like
        (do
          let s ← Act.store
          Act.ofAttempt (Attempt.misuse (.notCallable (s.hostTypeName v))) : Act σ Value)
        (do
          let s ← Act.store
          Act.ofAttempt (Attempt.misuse (.notCallable (s.hostTypeName w)))) := by
      refine Act.parallel_store.bind fun le stores => ?_
      rw [stores.hostTypeName (like.mono le)]
      exact Act.parallel_ofAttempt (Attempt.parallel_misuse _)
    cases like with
    | @plain v plain =>
      cases v with
      | callable f =>
        rw [invokeWithin_callable, invokeWithin_callable]
        refine Act.parallel_store.bind fun le stores => ?_
        refine (Act.parallel_ofAttempt (Attempt.parallel_tuple (args.mono le))).bind
          fun le₂ noted => ?_
        refine (parallel_noteCall f stores le₂ noted fun like =>
          ih like (.cons noted .nil)).bind fun le₃ _ => ?_
        exact Act.parallel_store.bind fun le₄ stores => ih (stores.rest.callable f).routine
          (args.mono (le_trans le (le_trans le₂ (le_trans le₃ le₄))))
      | routine r =>
        refine (Act.parallel_modifyStore fun {ρ₁ s t} le alike => ?_).bind
          fun le _ => fun _ le' _ _ alike => respects.run alike r (args.mono (le_trans le le'))
        rw [alike.ownerOf? r]
        cases t.ownerOf? r with
        | none => exact alike
        | some f => exact alike.addInvocation f (args.mono le)
      | _ => exact refused
    | _ => exact refused

theorem parallel_invoke (respects : host.Respects L) {v w : Value} {vs ws : List Value}
    (like : v.Like ρ w) (args : Value.AllLike ρ vs ws) :
    Parallel (World.Like L) ρ Value.Like (invoke host v vs) (invoke host w ws) := by
  refine Act.parallel_store.bind fun le stores => ?_
  have sizes := stores.rest.callables.length_eq
  rw [Array.length_toList, Array.length_toList] at sizes
  rw [sizes]
  exact parallel_invokeWithin respects _ (like.mono le) (args.mono le)

/-- A call does the same with like values. -/
theorem parallel_callValue (respects : host.Respects L) {v w : Value} {vs ws : List Value}
    (like : v.Like ρ w) (args : Value.AllLike ρ vs ws) :
    Parallel (World.Like L) ρ Outcome.Like (callValue host v vs) (callValue host w ws) := by
  refine Act.parallel_store.bind fun le stores => ?_
  rw [like.isCallable, stores.typeName (like.mono le)]
  refine .ite ?_ ?_
  · refine (parallel_invoke respects (like.mono le) (args.mono le)).guarded.bind fun _ ends => ?_
    cases ends with
    | ok like => exact Act.parallel_success like
    | @error e e' paired =>
      refine Act.parallel_store.bind fun le' stores => ?_
      rw [(stores.faults.like (le'.faults paired)).kind]
      refine .ite (.throw (le'.faults paired)) ?_
      exact Act.parallel_raisedFault (Attempt.parallel_callFailure (le'.faults paired))
  · exact (Act.parallel_ofAttempt (Attempt.parallel_newMessage _ _)).bind fun _ paired =>
      Act.parallel_raisedFault (Attempt.parallel_callFailure paired)

/-- Faults that belong together are copied in the same way. -/
theorem parallel_copyOf (respects : host.Respects L) {x y : FaultRef} (paired : ρ.faults x y) :
    Parallel (World.Like L) ρ Value.Like (copyOf host x) (copyOf host y) := by
  refine Act.parallel_store.bind fun {ρ₁ s t} le stores => ?_
  have ways := stores.attribute? (.fault (le.faults paired)) copyName
  generalize s.attribute? (.fault x) copyName = way at ways
  generalize t.attribute? (.fault y) copyName = way' at ways
  cases ways with
  | none =>
    exact (Act.parallel_ofAttempt (Attempt.parallel_copyFault (le.faults paired))).bind
      fun _ copies => .pure fun le' => .fault (le'.faults copies)
  | some like => exact parallel_invoke respects like .nil

/-- Like values are raised in the same way. -/
theorem parallel_evalRaise (respects : host.Respects L) {v w : Value} (like : v.Like ρ w) :
    Parallel (World.Like L) ρ Outcome.Like (evalRaise host v) (evalRaise host w) := by
  have raised := Act.parallel_raised (L := L) like
  cases like with
  | @fault x y paired =>
    refine Act.parallel_store.bind fun le stores => ?_
    rw [(stores.faults.like (le.faults paired)).kind]
    refine .ite ?_ (raised.mono le)
    exact (parallel_copyOf respects (le.faults paired)).bind fun _ like => Act.parallel_raised like
  | @plain v plain =>
    cases v with
    | fault => cases plain
    | _ => exact raised
  | _ => exact raised

/-- A name that is a text is looked up in the same way in like environments. -/
theorem matches_lookup {vars vars' : Environment} {v w : Value} {text : String}
    {u u' : World σ} (alike : u.Like L ρ u') (bound : vars.Like ρ vars') (like : v.Like ρ w)
    (named : u.store.text? v = some text) :
    Matches (World.Like L) ρ Outcome.Like ((lookup vars v).runOn u)
      ((lookup vars' w).runOn u') := by
  have named' : u'.store.text? w = some text := (alike.store.text? like).symm.trans named
  rw [lookup, lookup, Work.runOn_bind_ok (runOn_checkKey named),
    Work.runOn_bind_ok (runOn_checkKey named'), Work.runOn_bind_ok (Act.runOn_store u),
    Work.runOn_bind_ok (Act.runOn_store u')]
  have found := bound.get? text
  dsimp only
  rw [named, named', Option.bind_some, Option.bind_some]
  generalize vars.get? text = x at found
  generalize vars'.get? text = x' at found
  cases found with
  | none => exact Act.parallel_raisedFault (Attempt.parallel_unbound like) (le_refl _) alike
  | some like => exact Act.parallel_success like (le_refl _) alike

end Acts

/-! ## Evaluations -/

/-- The frames are the same up to a pairing, but for the values that are open: these are as many. -/
structure Frame.Like (ρ : Pairing) (f g : Frame) : Prop where
  vars : f.vars.Like ρ g.vars
  maxDepth : f.maxDepth = g.maxDepth
  debug : f.debug.Like ρ g.debug
  traced : f.traced = g.traced
  depth : f.depth = g.depth

/-- The worlds and the frames are the same up to a pairing. -/
structure Run.Like (L : Likeness σ) (ρ : Pairing) (r r' : Run σ) : Prop where
  world : r.world.Like L ρ r'.world
  frame : r.frame.Like ρ r'.frame

theorem Frame.Like.mono (le : ρ ≤ ρ') {f g : Frame} (h : f.Like ρ g) : f.Like ρ' g :=
  ⟨h.vars.mono le, h.maxDepth, h.debug.mono le, h.traced, h.depth⟩

namespace Eval

open Work

variable {R : Pairing → α → α' → Prop}

theorem parallel_ofAct {x : Act σ α} {x' : Act σ α'} (h : Parallel (World.Like L) ρ R x x') :
    Parallel (Run.Like L) ρ R (ofAct x) (ofAct x') := by
  intro ρ₁ le r r' alike
  obtain ⟨ρ₂, le', worlds, ends⟩ := h le alike.world
  exact ⟨ρ₂, le', ⟨worlds, alike.frame.mono le'⟩, ends⟩

theorem parallel_frame : Parallel (Run.Like L) ρ Frame.Like frame frame :=
  fun _ _ _ _ alike => ⟨_, le_refl _, alike, .ok alike.frame⟩

end Eval

/-- The same debug record is written on both sides or on neither. -/
theorem parallel_debug {host : Host σ} (respects : host.Respects L)
    {record record' : Frame → LogRecord}
    (same : ∀ {f g : Frame}, f.depth = g.depth → record f = record' g) :
    Work.Parallel (Run.Like L) ρ Pairing.Equal (debug host record) (debug host record') := by
  refine Eval.parallel_frame.bind fun {ρ₁ f g} _ frames => ?_
  refine (Eval.parallel_ofAct (parallel_truthTest respects frames.debug)).bind
    fun {_ b _} _ answers => ?_
  cases answers
  refine .ite ?_ (.pure fun _ => rfl)
  rw [same frames.depth]
  intro ρ₂ _ r r' alike
  obtain ⟨⟨store, trace, log, states⟩, frame⟩ := alike
  exact ⟨ρ₂, le_refl _, ⟨⟨store, trace, congrArg (·.push (record' g)) log, states⟩, frame⟩, .ok rfl⟩

/-! ## Observations -/

namespace Trace.Like

variable {t u : Trace} {v w : Value}

theorem enter (h : t.Like L ρ u) (nodes : L.Node ρ v w) : (t.enter v).Like L ρ (u.enter w) := by
  obtain ⟨events, depth⟩ := h
  refine ⟨?_, congrArg (· + 1) depth⟩
  simp only [Trace.enter, Array.toList_push, depth]
  exact List.rel_append events (.cons (.enter _ nodes) .nil)

theorem exit (h : t.Like L ρ u) (nodes : L.Node ρ v w) {o p : Value} (outcomes : o.Shares ρ p) :
    (t.exit v o).Like L ρ (u.exit w p) := by
  obtain ⟨events, depth⟩ := h
  refine ⟨?_, congrArg (· - 1) depth⟩
  simp only [Trace.exit, Array.toList_push, depth]
  exact List.rel_append events (.cons (.exit _ nodes outcomes) .nil)

end Trace.Like

theorem Eval.parallel_observe {f f' : Trace → Trace}
    (h : ∀ {ρ₁ t u}, ρ ≤ ρ₁ → t.Like L ρ₁ u → (f t).Like L ρ₁ (f' u)) :
    Work.Parallel (Run.Like L) ρ Pairing.Equal (observe f : Eval σ Unit) (observe f') := by
  intro ρ₁ le r r' alike
  refine ⟨ρ₁, le_refl _, ?_, .ok rfl⟩
  obtain ⟨⟨store, trace, log, states⟩, frame⟩ := alike
  simp only [observe, Work.runOn_modify, frame.traced]
  split
  · exact ⟨⟨store, h le trace, log, states⟩, frame⟩
  · exact ⟨⟨store, trace, log, states⟩, frame⟩

end Fallback
