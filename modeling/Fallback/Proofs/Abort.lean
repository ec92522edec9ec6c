import Fallback.Proofs.Course
import Fallback.Proofs.Guard

/-!
What an evaluation leaves behind when it is aborted.

`Position.Aborts` says that a visit aborts the evaluation and in which state it does: the frame
refuses the node, or the host ends a call of the rule with a fault that the guard lets through, or
a recoverable fault has a way of its own to be copied and that fails. Nothing is done after that
moment, not even for the nodes that are open. In the trace they are the nodes that were entered and
not left: `Brackets` reads them off the events, and `Run.IsBracketed`, that they are the stack of
the frame, is kept by all that an evaluation does between two events. The trace is in the hands of
the host as well, so that it records nothing there itself is an assumption about it,
`Host.KeepsTrace`.
-/
namespace Fallback

open Relation (ReflTransGen)

variable {σ : Type} {host : Host σ}

/-! ## Events in brackets -/

/-- The events are those of nodes that were entered and left inside each other. The nodes are those
that were entered and not left, the outermost first. -/
inductive Brackets : List TraceEvent → List NodeRef → Prop
  | nil : Brackets [] []
  | enter {es ns n depth} (h : Brackets es ns) :
    Brackets (es ++ [.enter (.node n) depth]) (ns ++ [n])
  | exit {es ns n depth o} (h : Brackets es (ns ++ [n])) :
    Brackets (es ++ [.exit (.node n) depth o]) ns

/-- The host adds nothing to the trace. -/
structure Host.KeepsTrace (host : Host σ) : Prop where
  run (r : RoutineRef) (args : List Value) (w : World σ) : (host.run r args w).2.trace = w.trace
  truth (o : ObjectRef) (w : World σ) : (host.truth o w).2.trace = w.trace

theorem Run.Change.trace_eq {r r' : Run σ} (h : ReflTransGen (Run.Change host) r r')
    (ht : host.KeepsTrace) : r'.world.trace = r.world.trace := by
  induction h with
  | refl => rfl
  | @tail r₁ r₂ _ step ih =>
    rw [← ih]
    cases step with
    | log record => rfl
    | world h =>
      cases h with
      | store h => rfl
      | run callee args => exact ht.run callee args r₁.world
      | truth o => exact ht.truth o r₁.world

section Nodes

variable {v : Value} {r r' : Run σ}

/-- Entering a node adds one event to the trace. -/
theorem enterNode_trace {kind : String} (h : (enterNode host v).runOn r = (.ok kind, r'))
    (ht : host.KeepsTrace) (traced : r.frame.traced = true) :
    r'.world.trace = r.world.trace.enter v := by
  have push := (enterNode_ok h).2.1
  rw [enterNode, Work.runOn_bind_ok (runOn_openNode_of_push push),
    Work.runOn_bind_ok (Eval.runOn_store _)] at h
  obtain ⟨u, r₁, debugged, h⟩ := Work.runOn_bind_eq_ok.1 h
  have changes := (makes_debug _).of_run debugged
  have frame := Run.Change.frame_eq changes
  have told : r₁.frame.traced = true := by
    rw [frame]
    exact (Frame.settings_of_push push).2.2.trans traced
  obtain ⟨u, r₂, observed, h⟩ := Work.runOn_bind_eq_ok.1 h
  cases h
  rw [Eval.observe, Work.runOn_modify, if_pos told] at observed
  cases observed
  exact congrArg (·.enter v) (Run.Change.trace_eq changes ht)

/-- Leaving a node adds one event to the trace. -/
theorem leaveNode_trace {kind : String} {o : Outcome}
    (h : (leaveNode host v kind o).runOn r = (.ok (), r')) (ht : host.KeepsTrace)
    (traced : r.frame.traced = true) : r'.world.trace = r.world.trace.exit v o.toValue := by
  rw [runOn_leaveNode] at h
  obtain ⟨u, r₁, debugged, closed⟩ := Work.runOn_bind_eq_ok.1 h
  have same := Run.Change.trace_eq ((makes_debug _).of_run debugged) ht
  rw [(closeNode_ok closed).2, same]
  simp only [Run.noted, traced, if_true]

end Nodes

/-! ## The open nodes -/

/-- Since there were some events, nodes were entered and left inside each other, and those that were
not left are the ones on the stack of the frame. -/
def Run.IsBracketed (before : List TraceEvent) (r : Run σ) : Prop :=
  ∃ es ns, r.world.trace.events.toList = before ++ es ∧ Brackets es ns ∧
    ns.map Identity.node = r.frame.stack.reverse

section Runs

variable {before : List TraceEvent} {n : NodeRef} {r r' : Run σ}

theorem Run.IsBracketed.of_change (h : r.IsBracketed before)
    (changes : ReflTransGen (Run.Change host) r r') (ht : host.KeepsTrace) :
    r'.IsBracketed before := by
  rw [IsBracketed, Run.Change.trace_eq changes ht, Run.Change.frame_eq changes]
  exact h

/-- A node that is entered is the innermost one that is open. -/
theorem Run.IsBracketed.enter {kind : String} (h : r.IsBracketed before)
    (enter : (enterNode host (.node n)).runOn r = (.ok kind, r')) (ht : host.KeepsTrace)
    (traced : r.frame.traced = true) : r'.IsBracketed before := by
  obtain ⟨es, ns, events, brackets, isOpen⟩ := h
  refine ⟨es ++ [.enter (.node n) r.world.trace.depth], ns ++ [n], ?_, brackets.enter, ?_⟩
  · rw [enterNode_trace enter ht traced, Trace.enter, Array.toList_push, events, List.append_assoc]
  · rw [Frame.stack_of_push (enterNode_ok enter).2.1, List.reverse_cons, ← isOpen, List.map_append]
    rfl

/-- The node that is left is the innermost one that is open. -/
theorem Run.IsBracketed.leave {f : Frame} {kind : String} {o : Outcome}
    (h : r.IsBracketed before) (push : f.push (.node n) = .ok r.frame)
    (leave : (leaveNode host (.node n) kind o).runOn r = (.ok (), r')) (ht : host.KeepsTrace)
    (traced : r.frame.traced = true) : r'.IsBracketed before := by
  obtain ⟨es, ns, events, brackets, isOpen⟩ := h
  have pop := (leaveNode_ok leave).1
  rw [Frame.pop_of_push push] at pop
  rw [Frame.stack_of_push push, List.reverse_cons, List.map_eq_append_iff] at isOpen
  obtain ⟨outer, inner, rfl, outerOpen, innerOpen⟩ := isOpen
  obtain ⟨k, rfl, same⟩ := List.map_eq_singleton_iff.1 innerOpen
  cases same
  refine ⟨es ++ [.exit (.node n) (r.world.trace.depth - 1) o.toValue], outer, ?_, brackets.exit, ?_⟩
  · rw [leaveNode_trace leave ht traced, Trace.exit, Array.toList_push, events, List.append_assoc]
  · rw [outerOpen, ← (Prod.mk.inj pop).2]

end Runs

namespace Position

variable {p c : Position σ} {os : List Outcome} {o : Outcome} {r r' : Run σ}
  {before : List TraceEvent}

/-- The frame is traced while a node is open if it was traced before. -/
theorem Progress.traced_eq (h : p.Progress host os r) (sound : p.IsSound) (hk : host.KeepsTrees) :
    r.frame.traced = p.run.frame.traced :=
  (Frame.settings_of_push (h.push_eq sound hk).1).2.2

/-- The events of a visit are in brackets as far as it has come, if those of the visits that it
makes are. -/
theorem Progress.isBracketed_of (hk : host.KeepsTrees) (ht : host.KeepsTrace) (sound : p.IsSound)
    (traced : p.run.frame.traced = true) (start : p.run.IsBracketed before)
    (below : ∀ c : Position σ, c.budget < p.budget → c.IsSound → c.run.frame.traced = true →
      c.run.IsBracketed before → ∀ o r', c.ending host = (.ok o, r') → r'.IsBracketed before)
    (h : p.Progress host os r) : r.IsBracketed before := by
  induction h with
  | entered budget enter => exact start.enter enter ht traced
  | visited progress decided visit ih =>
    obtain ⟨c, rfl, child, csound, rfl, cending⟩ := progress.child sound hk decided
    have changes := (p.form.makes_next _).of_run decided
    have told : c.run.frame.traced = true := by
      rw [Run.Change.frame_eq changes, progress.traced_eq sound hk, traced]
    have less : c.budget < p.budget := by
      have := child.budget
      omega
    exact below c less csound told (ih.of_change changes ht) _ _ (cending.trans visit)

/-- The events of a visit that ends well are in brackets. -/
theorem isBracketed_of_ending (hk : host.KeepsTrees) (ht : host.KeepsTrace) (sound : p.IsSound)
    (traced : p.run.frame.traced = true) (start : p.run.IsBracketed before)
    (ending : p.ending host = (.ok o, r')) : r'.IsBracketed before := by
  induction hb : p.budget using Nat.strongRecOn generalizing p o r' with
  | ind b ih =>
    obtain ⟨r, settled, left⟩ := (ending_eq_ok_iff sound hk).1 ending
    have push := settled.push_eq sound hk
    obtain ⟨os, r₀, progress, decided⟩ := settled
    have changes := Form.changes_of_end decided
    have bracketed : r₀.IsBracketed before :=
      progress.isBracketed_of hk ht sound traced start fun c less csound told begins o r' cending =>
        ih c.budget (hb ▸ less) csound told begins cending rfl
    have told : r.frame.traced = true := by
      rw [Run.Change.frame_eq changes, progress.traced_eq sound hk, traced]
    exact (bracketed.of_change changes ht).leave push left ht told

theorem Progress.isBracketed (h : p.Progress host os r) (hk : host.KeepsTrees)
    (ht : host.KeepsTrace) (sound : p.IsSound) (traced : p.run.frame.traced = true)
    (start : p.run.IsBracketed before) : r.IsBracketed before :=
  h.isBracketed_of hk ht sound traced start fun _ _ csound told begins _ _ ending =>
    isBracketed_of_ending hk ht csound told begins ending

/-- The events are in brackets wherever an evaluation comes to. -/
theorem Reaches.isBracketed (h : p.Reaches host c) (hk : host.KeepsTrees) (ht : host.KeepsTrace)
    (sound : p.IsSound) (traced : p.run.frame.traced = true) (start : p.run.IsBracketed before) :
    c.run.frame.traced = true ∧ c.run.IsBracketed before := by
  induction h with
  | refl => exact ⟨traced, start⟩
  | tail above step ih =>
    obtain ⟨told, begins⟩ := ih
    obtain ⟨slot, child⟩ := step
    obtain ⟨os, r, progress, decided⟩ := child.decided
    have bsound := isSound_of_reaches above sound hk
    have changes := (Form.makes_next _ _).of_run decided
    refine ⟨?_, (progress.isBracketed hk ht bsound told begins).of_change changes ht⟩
    rw [Run.Change.frame_eq changes, progress.traced_eq bsound hk, told]

/-! ## Aborting -/

/-- The visit aborts the evaluation with a fault: the frame refuses its node, or the host ends a
call of its rule with a fault that the guard lets through, or a recoverable fault has a way of its
own to be copied and that fails. The state is that of the moment when this happens, and the world
the one in which the fault is thrown. -/
inductive Aborts (host : Host σ) (p : Position σ) : FaultRef → Run σ → World σ → Prop
  | refused {refusal e w'} (push : p.run.frame.push p.value = .error refusal)
      (reported : (Act.ofAttempt (Attempt.malformed (p.run.world.store.placeOf p.value)
        refusal.message) : Act σ Unit).runOn p.run.world = (.error e, w')) :
    p.Aborts host e p.run w'
  | hostFailed {os r c w'} (progress : p.Progress host os r)
      (failed : p.form.HostFails host r.world os c w')
      (lets : p.form.letsThrough (w'.store.fault c).kind = true) :
    p.Aborts host c ⟨r.frame, w'⟩ w'
  | copyFailed {os r x way e w'} (progress : p.Progress host os r)
      (form : p.form = .raise (.fault x))
      (locatable : (r.world.store.fault x).kind.isLocatable = true)
      (own : r.world.store.attribute? (.fault x) copyName = some way)
      (failed : (invoke host way []).runOn r.world = (.error e, w')) :
    p.Aborts host e ⟨r.frame, w'⟩ w'

variable {e : FaultRef} {w' : World σ}

theorem runOn_guard_of_letsThrough {f : Form}
    (lets : f.letsThrough (w'.store.fault e).kind = true) :
    (f.guard e).runOn w' = (.error e, w') := by
  rw [Form.guard, guardFault, Work.runOn_ofRun, if_pos lets]

/-- A visit that aborts the evaluation is broken off at that moment. -/
theorem Aborts.breaksOff (h : p.Aborts host e r w') : p.BreaksOff host e ⟨r.frame, w'⟩ := by
  cases h with
  | refused push reported =>
    refine .entering (Work.runOn_bind_error (s := p.run) (t := ⟨p.run.frame, w'⟩) ?_ _)
    rw [runOn_openNode_of_refused push]
    cases reported
    rfl
  | hostFailed progress failed lets =>
    exact .deciding progress (Form.Breaks.guard failed (runOn_guard_of_letsThrough lets)).next
  | copyFailed progress form locatable own failed =>
    refine .deciding progress ?_
    rw [form]
    exact (Form.Breaks.copy locatable own failed).next

/-- Once the evaluation is aborted no record is made any more. -/
theorem Aborts.sameRecords (h : p.Aborts host e r w') : r.world.SameRecords w' := by
  cases h with
  | refused push reported =>
    cases reported
    exact ⟨rfl, rfl, rfl, rfl⟩
  | hostFailed | copyFailed => exact ⟨rfl, rfl, rfl, rfl⟩

/-- The host has made changes until it fails. -/
theorem reflTransGen_of_act {α : Type} {x : Act σ α} (hx : x.Composed host)
    {result : Except FaultRef α} (h : x.runOn r.world = (result, w')) :
    ReflTransGen (Run.Change host) r ⟨r.frame, w'⟩ :=
  hx.makes.eval.of_run (by rw [Eval.runOn_ofAct, h])

theorem reflTransGen_of_hostFails {f : Form} (h : f.HostFails host r.world os e w') :
    ReflTransGen (Run.Change host) r ⟨r.frame, w'⟩ := by
  cases h with
  | invocation _ _ _ failed => exact reflTransGen_of_act (composed_invoke _ _) failed
  | operatorTest _ failed => exact reflTransGen_of_act (composed_truthTest _) failed
  | choiceTest _ failed => exact reflTransGen_of_act (composed_truthTest _) failed

theorem Aborts.isBracketed (h : p.Aborts host e r w') (hk : host.KeepsTrees)
    (ht : host.KeepsTrace) (sound : p.IsSound) (traced : p.run.frame.traced = true)
    (start : p.run.IsBracketed before) : r.IsBracketed before := by
  cases h with
  | refused push reported => exact start
  | hostFailed progress failed lets =>
    exact (progress.isBracketed hk ht sound traced start).of_change
      (reflTransGen_of_hostFails failed) ht
  | copyFailed progress form locatable own failed =>
    exact (progress.isBracketed hk ht sound traced start).of_change
      (reflTransGen_of_act (composed_invoke _ _) failed) ht

end Position

/-- Wherever a visit that is reached aborts the evaluation, the evaluation ends with that very fault
and in the world of that moment: no node is opened or closed any more and no record is made. If the
evaluation is traced, and the host adds nothing to the trace, then the nodes that were entered and
not left are the open ones in the order from the root. -/
theorem runOn_evaluate_of_aborts (hk : host.KeepsTrees) {q : Request} {root : NodeRef}
    {w w' : World σ} (tree : w.store.IsTree root) {p : Position σ} {e : FaultRef} {moment : Run σ}
    (reached : (Position.start q root w).Reaches host p) (aborts : p.Aborts host e moment w') :
    (evaluate host q (.node root)).runOn w = (.error e, w') ∧
    (Position.start q root w).ending host = (.error e, ⟨moment.frame, w'⟩) ∧
    moment.world.SameRecords w' ∧
    (host.KeepsTrace → q.traced = true →
      ∃ es ns, w'.trace.events.toList = w.trace.events.toList ++ es ∧ Brackets es ns ∧
        ns.map Identity.node = moment.frame.stack.reverse) := by
  have sound := Position.isSound_start q tree
  have ending : (Position.start q root w).ending host = (.error e, ⟨moment.frame, w'⟩) :=
    (Position.ending_eq_error_iff_reaches sound hk).2 ⟨p, reached, aborts.breaksOff⟩
  have records := aborts.sameRecords
  refine ⟨by rw [Position.runOn_evaluate, ending], ending, records, fun ht traced => ?_⟩
  have start : (Position.start q root w).run.IsBracketed w.trace.events.toList :=
    ⟨[], [], (List.append_nil _).symm, .nil, rfl⟩
  obtain ⟨told, begins⟩ := reached.isBracketed hk ht sound traced start
  obtain ⟨es, ns, events, brackets, isOpen⟩ :=
    aborts.isBracketed hk ht (Position.isSound_of_reaches reached sound hk) told begins
  exact ⟨es, ns, by rw [records.trace, events], brackets, isOpen⟩

/-- A host whose objects end every truth test with the first fault. -/
def stoppingHost : Host Unit :=
  ⟨fun _ _ w => (.ok .null, w), fun _ w => (.error ⟨0⟩, w)⟩

theorem keepsTrees_stoppingHost : stoppingHost.KeepsTrees :=
  ⟨fun _ _ _ => le_refl _, fun _ _ => le_refl _⟩

theorem keepsTrace_stoppingHost : stoppingHost.KeepsTrace :=
  ⟨fun _ _ _ => rfl, fun _ _ => rfl⟩

/-- An operator that falls back on any fault over one that tests an object. -/
def guardedTree : Attempt NodeRef := do
  let test ← testingTree
  let other ← Attempt.node (.literal .null) .null
  Attempt.node (.fallback .onFault (.node test) (.node other)) .null

/-- A store with an interruption. -/
def interruptStore : Store :=
  { Store.empty with faults := #[⟨.interrupt, .tuple [] Store.noStamp, .null, .null, []⟩] }

/-- The world in which the tree was made. -/
def guardedWorld : World Unit :=
  ⟨(guardedTree.runOn interruptStore).2, .empty, #[], ()⟩

theorem isTree_guardedWorld : guardedWorld.store.IsTree ⟨3⟩ := by
  let s := (testingTree.runOn interruptStore).2
  let t := ((Attempt.node (.literal .null) .null).runOn s).2
  have tested : testingTree.runOn interruptStore = (.ok ⟨1⟩, s) := rfl
  have test := Attempt.isBuilt_of_doubled (Store.knows_all rfl) (by decide) tested
  have literal : (Attempt.node (.literal .null) .null).runOn s = (.ok ⟨2⟩, t) := rfl
  have free : ∀ v ∈ (Form.literal .null).values, s.Knows v := Store.knows_all rfl
  obtain ⟨le, other⟩ := Attempt.isBuilt_of_node free nofun literal
  have joined : (Attempt.node (.fallback .onFault (.node ⟨1⟩) (.node ⟨2⟩)) .null).runOn t =
      (.ok ⟨3⟩, guardedWorld.store) := rfl
  exact (Attempt.isBuilt_of_fallback (test.mono le) other joined).2.tree

/-- The interruption of the truth test gets out of the operator that falls back on any fault, and
both operators stay open. -/
theorem runOn_evaluate_of_interruption :
    let q : Request := { Request.standard with traced := true }
    stoppingHost.KeepsTrees ∧ stoppingHost.KeepsTrace ∧ guardedWorld.store.IsTree ⟨3⟩ ∧
    ∃ w' es ns, (evaluate stoppingHost q (.node ⟨3⟩)).runOn guardedWorld = (.error ⟨0⟩, w') ∧
      (w'.store.fault ⟨0⟩).kind = .interrupt ∧ w'.trace.events.toList = es ∧ Brackets es ns ∧
      ns.map Identity.node = [.node ⟨3⟩, .node ⟨1⟩] := by
  intro q
  let root := Position.start q ⟨3⟩ guardedWorld
  let opened : Run Unit := ⟨{ q.frame with stack := [.node ⟨3⟩], active := [.node ⟨3⟩] },
    { guardedWorld with trace := Trace.empty.enter (.node ⟨3⟩) }⟩
  let test : Position Unit := ⟨127, ⟨1⟩, opened⟩
  let within : Run Unit :=
    ⟨{ q.frame with stack := [.node ⟨1⟩, .node ⟨3⟩], active := [.node ⟨1⟩, .node ⟨3⟩] },
      { guardedWorld with trace := opened.world.trace.enter (.node ⟨1⟩) }⟩
  let o : Outcome := ⟨⟨0⟩, .success (.object ⟨0⟩)⟩
  let after : Run Unit := ⟨within.frame,
    { guardedWorld with
      store := (guardedWorld.store.addOutcome o.result).2
      trace := (within.world.trace.enter (.node ⟨0⟩)).exit (.node ⟨0⟩) o.toValue }⟩
  have visits : root.Visits stoppingHost [] test :=
    ⟨rfl, opened, 0, .entered (by decide) rfl, rfl⟩
  have entered : test.Progress stoppingHost [] within := .entered (by decide) rfl
  have decided : (test.form.next stoppingHost []).runOn within =
      (.ok (.visit 0 (.node ⟨0⟩)), within) := rfl
  have visit : (evalNode stoppingHost 126 (.node ⟨0⟩)).runOn within = (.ok o, after) := rfl
  have progress : test.Progress stoppingHost [o] after := .visited entered decided visit
  have failed : test.form.HostFails stoppingHost after.world [o] ⟨0⟩ after.world :=
    .operatorTest rfl rfl
  have aborts := Position.Aborts.hostFailed progress failed rfl
  obtain ⟨runs, -, -, events⟩ := runOn_evaluate_of_aborts keepsTrees_stoppingHost
    isTree_guardedWorld visits.reaches aborts
  obtain ⟨es, ns, same, brackets, isOpen⟩ := events keepsTrace_stoppingHost rfl
  exact ⟨keepsTrees_stoppingHost, keepsTrace_stoppingHost, isTree_guardedWorld, _, es, ns, runs,
    rfl, same, brackets, isOpen⟩

end Fallback
