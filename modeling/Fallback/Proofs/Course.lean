import Fallback.Proofs.Position

/-!
The course of an evaluation in time.

`Run.Leads` relates the states that an evaluation passes through: it goes on by changes, by opening
and closing nodes, by attaching places and by observations, and by nothing else. `Position.Visits`
says which visit is made once some operands have ended, and there is only one; so of two visits
below the same one either is above the other, or it has ended before the other begins:
`Position.reaches_or_precedes`. What was reached on the way leads to where the evaluation ends, in
whatever way it does.
-/
namespace Fallback

open Relation (ReflTransGen)

variable {σ : Type} {host : Host σ}

/-! ## Steps -/

/-- One step of an evaluation in which nothing that was made before is changed but by the host: a
change, a node opened or closed, or an observation. -/
inductive Run.Quiet (host : Host σ) (r : Run σ) : Run σ → Prop
  | change {r' : Run σ} (h : r.Change host r') : r.Quiet host r'
  | frame (frame : Frame) : r.Quiet host { r with frame }
  | enter (v : Value) :
    r.Quiet host { r with world := { r.world with trace := r.world.trace.enter v } }
  | exit (v outcome : Value) :
    r.Quiet host { r with world := { r.world with trace := r.world.trace.exit v outcome } }

/-- One step of an evaluation: a quiet one, or the place of a node is attached to what an outcome
raises. -/
inductive Run.Step (host : Host σ) (r : Run σ) : Run σ → Prop
  | quiet {r' : Run σ} (h : r.Quiet host r') : r.Step host r'
  | place (v : Value) (o : Outcome) :
    r.Step host { r with world := { r.world with store := r.world.store.attachPlace v o } }

/-- An evaluation in the first state comes to the second. -/
def Run.Leads (host : Host σ) : Run σ → Run σ → Prop :=
  ReflTransGen (Run.Step host)

section Work

open Work

variable {α : Type} {eval : Value → Eval σ Outcome}

theorem Run.Change.leads {r r' : Run σ} (h : ReflTransGen (Run.Change host) r r') :
    r.Leads host r' :=
  ReflTransGen.mono (fun _ _ step => .quiet (.change step)) _ _ h

/-- Work that makes nothing but changes is quiet. -/
theorem Work.Makes.quiet {x : Eval σ α} (hx : x.Makes (Run.Change host)) :
    x.Makes (Run.Quiet host) :=
  hx.mono fun _ _ step => .change step

/-- Quiet work goes on by steps. -/
theorem Work.Makes.steps {x : Eval σ α} (hx : x.Makes (Run.Quiet host)) :
    x.Makes (Run.Step host) :=
  hx.mono fun _ _ step => .quiet step

theorem quiet_attempt {x : Attempt α} (hx : x.Makes Store.Change) :
    (Eval.ofAttempt x : Eval σ α).Makes (Run.Quiet host) :=
  (Act.Composed.attempt hx).makes.eval.quiet

theorem quiet_malformed (place : Value) (message : String) :
    (Eval.ofAttempt (Attempt.malformed place message) : Eval σ α).Makes (Run.Quiet host) :=
  quiet_attempt ((Attempt.makes_newFaultAt _ _ _).bind fun _ => makes_throw _)

theorem quiet_report (place : Value) (refusal : Frame.Refusal) :
    (Eval.ofAttempt (refusal.report place) : Eval σ α).Makes (Run.Quiet host) := by
  cases refusal with
  | cyclic => exact quiet_malformed _ _
  | tooDeep maxDepth => exact quiet_malformed _ _
  | nothingOpen => exact quiet_attempt (Attempt.makes_fail _ _)
  | unbalanced => exact quiet_attempt (Attempt.makes_fail _ _)

theorem quiet_store : (Eval.store : Eval σ Store).Makes (Run.Quiet host) :=
  makes_get.bind fun _ => makes_pure _

theorem quiet_openNode (v : Value) : (openNode v).Makes (Run.Quiet host) := by
  unfold openNode
  intro r
  rw [runOn_bind_ok (runOn_get r)]
  rcases r.frame.push v with refusal | f
  · exact quiet_report _ _ r
  · exact .single (.frame f)

theorem quiet_closeNode (v : Value) : (closeNode v).Makes (Run.Quiet host) := by
  unfold closeNode
  intro r
  rw [runOn_bind_ok (runOn_get r)]
  rcases r.frame.pop v with ⟨refusal | u, f⟩
  · exact .head (.frame f) (quiet_report _ _ _)
  · exact .single (.frame f)

theorem quiet_enterNode (v : Value) : (enterNode host v).Makes (Run.Quiet host) := by
  refine (quiet_openNode v).bind fun _ => quiet_store.bind fun s => ?_
  refine (makes_debug _).quiet.bind fun _ => Makes.bind (fun r => ?_) fun _ => makes_pure _
  simp only [Eval.observe, runOn_modify]
  split
  · exact .single (.enter v)
  · exact .refl

/-- Once its place was attached, a node is left quietly. -/
theorem quiet_leaveNode (v : Value) (kind : String) (o : Outcome) (r : Run σ) :
    ReflTransGen (Run.Quiet host)
      { r with world := { r.world with store := r.world.store.attachPlace v o } }
      ((leaveNode host v kind o).runOn r).2 := by
  rw [leaveNode, runOn_bind_ok (Eval.runOn_modifyStore _ _)]
  refine Makes.bind (fun r => ?_)
    (fun _ => (makes_debug _).quiet.bind fun _ => quiet_closeNode v) _
  simp only [Eval.observe, runOn_modify]
  split
  · exact .single (.exit v _)
  · exact .refl

theorem steps_leaveNode (v : Value) (kind : String) (o : Outcome) :
    (leaveNode host v kind o).Makes (Run.Step host) := fun r =>
  .head (.place v o) (ReflTransGen.mono (fun _ _ step => .quiet step) _ _
    (quiet_leaveNode v kind o r))

theorem steps_evalArgs (heval : ∀ v, (eval v).Makes (Run.Step host)) (items : List Value) :
    (evalArgs eval items).Makes (Run.Step host) := by
  induction items with
  | nil => exact makes_pure _
  | cons v items ih =>
    refine (heval v).bind fun o => ?_
    split
    · exact makes_pure _
    · refine ih.bind fun walked => ?_
      cases walked with
      | error o => exact makes_pure _
      | ok vs => exact makes_pure _

theorem steps_evalAdded (heval : ∀ v, (eval v).Makes (Run.Step host)) (args : Value)
    (known : Nat) : (evalAdded eval args known).Makes (Run.Step host) := by
  refine quiet_store.steps.bind fun s => ?_
  generalize ((s.items? args).getD []).drop known = added
  induction added with
  | nil => exact makes_pure _
  | cons v added ih => exact ((heval v).bind fun _ => makes_pure _).bind fun _ => ih

theorem steps_evalCall (heval : ∀ v, (eval v).Makes (Run.Step host)) (callee args : Value) :
    (evalCall host eval callee args).Makes (Run.Step host) := by
  refine (heval callee).bind fun o => ?_
  split
  · exact makes_pure _
  · have items : (Eval.ofAttempt (Attempt.items args) : Eval σ (List Value)).Makes
        (Run.Step host) :=
      (quiet_attempt (Attempt.makes_ask _)).steps
    refine items.bind fun vs => (steps_evalArgs heval vs).bind fun walked => ?_
    cases walked with
    | error o => exact makes_pure _
    | ok vs =>
      exact (steps_evalAdded heval _ _).bind fun _ =>
        (composed_callValue _ _).makes.eval.quiet.steps

/-- What the truth of a value decides between makes steps if both sides do. -/
theorem steps_onTruth (v : Value) {x y : Eval σ Outcome} (hx : x.Makes (Run.Step host))
    (hy : y.Makes (Run.Step host)) : (do
      match ← Eval.ofAct (truthOrFailure host v) with
      | .error e => Eval.ofAct (Act.raised (.fault e))
      | .ok b => if b then x else y : Eval σ Outcome).Makes (Run.Step host) := by
  refine (composed_truthOrFailure v).makes.eval.quiet.steps.bind fun tested => ?_
  cases tested with
  | error e => exact (Act.composed_raised _).makes.eval.quiet.steps
  | ok b => exact makes_ite hx hy

theorem steps_evalFallback (heval : ∀ v, (eval v).Makes (Run.Step host)) (op : Operator)
    (lhs rhs : Value) : (evalFallback host eval op lhs rhs).Makes (Run.Step host) := by
  refine (heval lhs).bind fun o => ?_
  split
  · exact makes_pure _
  · exact (makes_debug _).quiet.steps.bind fun _ => heval rhs
  · exact makes_pure _
  · exact makes_ite (heval rhs) (makes_pure _)
  · exact steps_onTruth _ (makes_pure _) (heval rhs)

theorem steps_evalForm (heval : ∀ v, (eval v).Makes (Run.Step host)) (f : Form) :
    (evalForm host eval f).Makes (Run.Step host) := by
  cases f with
  | literal v => exact (Act.composed_success v).makes.eval.quiet.steps
  | reference name =>
    exact (Eval.makes_frame.bind fun f => (composed_lookup f.vars name).makes.eval).quiet.steps
  | call callee args => exact steps_evalCall heval callee args
  | fallback op lhs rhs => exact steps_evalFallback heval op lhs rhs
  | ternary condition thenBranch elseBranch =>
    refine (heval condition).bind fun o => ?_
    split
    · exact makes_pure _
    · exact steps_onTruth _ (heval thenBranch) (heval elseBranch)
  | raise exception => exact (composed_evalRaise exception).makes.eval.quiet.steps

/-- Evaluating a node goes on by steps, and by nothing else. -/
theorem steps_evalNode (budget : Nat) (v : Value) :
    (evalNode host budget v).Makes (Run.Step host) := by
  induction budget generalizing v with
  | zero => exact ((quiet_openNode v).bind fun _ => quiet_attempt (Attempt.makes_misuse _)).steps
  | succ budget ih =>
    refine (quiet_enterNode v).steps.bind fun kind => Makes.bind ?_ fun o =>
      (steps_leaveNode v kind o).bind fun _ => makes_pure _
    refine quiet_store.steps.bind fun s => ?_
    cases v with
    | node n => exact steps_evalForm ih _
    | _ => exact (quiet_malformed _ _).steps

end Work

/-! ## What steps keep -/

theorem Run.Quiet.le {r r' : Run σ} (h : r.Quiet host r') (hk : host.KeepsTrees) :
    r.world.store ≤ r'.world.store := by
  cases h with
  | change h => exact h.le hk
  | frame | enter | exit => exact le_refl _

theorem Run.Step.le {r r' : Run σ} (h : r.Step host r') (hk : host.KeepsTrees) :
    r.world.store ≤ r'.world.store := by
  cases h with
  | quiet h => exact h.le hk
  | place v o => exact Store.le_attachPlace _ _ _

/-- What lasts has lasted while an evaluation went on. -/
theorem Run.Leads.le {r r' : Run σ} (h : r.Leads host r') (hk : host.KeepsTrees) :
    r.world.store ≤ r'.world.store := by
  induction h with
  | refl => exact le_refl _
  | tail _ step ih => exact le_trans ih (step.le hk)

/-! ## Records -/

/-- The second world has the records of the first, and maybe more after them: invocations of
callables, events of the trace and debug records. -/
structure World.Extends (w w' : World σ) : Prop where
  invocations : w.store.invocations.toList <+: w'.store.invocations.toList
  events : w.trace.events.toList <+: w'.trace.events.toList
  log : w.log.toList <+: w'.log.toList

theorem World.Extends.refl (w : World σ) : w.Extends w :=
  ⟨List.prefix_refl _, List.prefix_refl _, List.prefix_refl _⟩

theorem World.Extends.trans {u v w : World σ} (h : u.Extends v) (k : v.Extends w) : u.Extends w :=
  ⟨h.invocations.trans k.invocations, h.events.trans k.events, h.log.trans k.log⟩

/-- The worlds have the same records and the host is in the same state, so that they differ in
nothing but new things of the store. -/
structure World.SameRecords (w w' : World σ) : Prop where
  invocations : w'.store.invocations = w.store.invocations
  trace : w'.trace = w.trace
  log : w'.log = w.log
  host : w'.host = w.host

theorem World.SameRecords.extends {w w' : World σ} (h : w.SameRecords w') : w'.Extends w := by
  obtain ⟨invocations, trace, log, -⟩ := h
  exact ⟨invocations ▸ List.prefix_refl _, trace ▸ List.prefix_refl _, log ▸ List.prefix_refl _⟩

/-- The host takes no record away. -/
structure Host.AddsRecords (host : Host σ) : Prop where
  run (r : RoutineRef) (args : List Value) (w : World σ) : w.Extends (host.run r args w).2
  truth (o : ObjectRef) (w : World σ) : w.Extends (host.truth o w).2

theorem addsRecords_idle : Host.idle.AddsRecords :=
  ⟨fun _ _ w => .refl w, fun _ w => .refl w⟩

theorem Store.Change.invocations_prefix {s t : Store} (h : s.Change t) :
    s.invocations.toList <+: t.invocations.toList := by
  cases h with
  | invocation f args =>
    rw [addInvocation, Array.toList_push]
    exact List.prefix_append _ _
  | stamp | fault | outcome | item => exact List.prefix_refl _

theorem Store.invocations_attachPlace (s : Store) (v : Value) (o : Outcome) :
    (s.attachPlace v o).invocations = s.invocations := by
  unfold attachPlace
  split
  · dsimp only
    split <;> rfl
  · rfl

theorem Run.Change.extends {r r' : Run σ} (h : r.Change host r') (ha : host.AddsRecords) :
    r.world.Extends r'.world := by
  cases h with
  | world h =>
    cases h with
    | store h => exact ⟨h.invocations_prefix, List.prefix_refl _, List.prefix_refl _⟩
    | run callee args => exact ha.run callee args r.world
    | truth o => exact ha.truth o r.world
  | log record =>
    refine ⟨List.prefix_refl _, List.prefix_refl _, ?_⟩
    rw [Array.toList_push]
    exact List.prefix_append _ _

/-- Every step keeps the records, as far as the host does. -/
theorem Run.Step.extends {r r' : Run σ} (h : r.Step host r') (ha : host.AddsRecords) :
    r.world.Extends r'.world := by
  cases h with
  | place v o =>
    have same := Store.invocations_attachPlace r.world.store v o
    exact ⟨same ▸ List.prefix_refl _, List.prefix_refl _, List.prefix_refl _⟩
  | quiet h =>
    cases h with
    | change h => exact h.extends ha
    | frame frame => exact .refl _
    | enter v =>
      refine ⟨List.prefix_refl _, ?_, List.prefix_refl _⟩
      rw [Trace.enter, Array.toList_push]
      exact List.prefix_append _ _
    | exit v outcome =>
      refine ⟨List.prefix_refl _, ?_, List.prefix_refl _⟩
      rw [Trace.exit, Array.toList_push]
      exact List.prefix_append _ _

/-- The records are never taken away while an evaluation goes on. -/
theorem Run.Leads.extends {r r' : Run σ} (h : r.Leads host r') (ha : host.AddsRecords) :
    r.world.Extends r'.world := by
  induction h with
  | refl => exact .refl _
  | tail _ step ih => exact ih.trans (step.extends ha)

namespace Position

/-! ## One visit after the other -/

/-- The visit makes another one once the operands visited before have ended with some outcomes. -/
structure Visits (host : Host σ) (p : Position σ) (os : List Outcome) (c : Position σ) : Prop where
  budget : c.budget + 1 = p.budget
  decided : ∃ r slot, p.Progress host os r ∧
    (p.form.next host os).runOn r = (.ok (.visit slot c.value), c.run)

variable {p c d : Position σ} {os os' : List Outcome} {o : Outcome} {r r' : Run σ}

theorem Visits.child (h : p.Visits host os c) : ∃ slot, p.Child host slot c := by
  obtain ⟨r, slot, progress, decided⟩ := h.decided
  exact ⟨slot, h.budget, os, r, progress, decided⟩

theorem Child.visits {slot : Nat} (h : p.Child host slot c) : ∃ os, p.Visits host os c := by
  obtain ⟨os, r, progress, decided⟩ := h.decided
  exact ⟨os, h.budget, r, slot, progress, decided⟩

theorem Visits.reaches (h : p.Visits host os c) : p.Reaches host c :=
  .single h.child

theorem Visits.isSound (h : p.Visits host os c) (sound : p.IsSound) (hk : host.KeepsTrees) :
    c.IsSound :=
  isSound_of_reaches h.reaches sound hk

/-- There is one way in which a visit goes on. -/
theorem Progress.unique (h : p.Progress host os r) (h' : p.Progress host os' r')
    (length : os.length = os'.length) : os = os' ∧ r = r' := by
  induction h generalizing os' r' with
  | entered budget enter =>
    cases h' with
    | entered budget' enter' =>
      rw [enter] at enter'
      cases enter'
      exact ⟨rfl, rfl⟩
    | visited before' decided' visit' => simp at length
  | visited before decided visit ih =>
    cases h' with
    | entered budget' enter' => simp at length
    | visited before' decided' visit' =>
      obtain ⟨rfl, rfl⟩ := ih before' (by simpa using length)
      rw [decided] at decided'
      cases decided'
      rw [visit] at visit'
      cases visit'
      exact ⟨rfl, rfl⟩

/-- After as many operands there is one visit to be made. -/
theorem Visits.unique (h : p.Visits host os c) (h' : p.Visits host os' d)
    (length : os.length = os'.length) : c = d := by
  obtain ⟨r, slot, progress, decided⟩ := h.decided
  obtain ⟨r', slot', progress', decided'⟩ := h'.decided
  obtain ⟨rfl, rfl⟩ := progress.unique progress' length
  rw [decided] at decided'
  obtain ⟨b, n, r₁⟩ := c
  obtain ⟨b', n', r₁'⟩ := d
  cases decided'
  obtain rfl : b = b' := Nat.succ.inj (h.budget.trans h'.budget.symm)
  rfl

theorem Progress.leads (h : p.Progress host os r) : p.run.Leads host r := by
  induction h with
  | entered budget enter => exact (quiet_enterNode _).steps.of_run enter
  | visited before decided visit ih =>
    have changes := (p.form.makes_next _).of_run decided
    exact (ih.trans (Run.Change.leads changes)).trans ((steps_evalNode _ _).of_run visit)

theorem Visits.leads (h : p.Visits host os c) : p.run.Leads host c.run := by
  obtain ⟨r, slot, progress, decided⟩ := h.decided
  exact progress.leads.trans (Run.Change.leads ((p.form.makes_next _).of_run decided))

/-- An evaluation comes to the visits that it reaches. -/
theorem Reaches.leads (h : p.Reaches host c) : p.run.Leads host c.run := by
  induction h with
  | refl => exact .refl
  | tail _ step ih =>
    obtain ⟨slot, child⟩ := step
    obtain ⟨os, visits⟩ := child.visits
    exact ih.trans visits.leads

theorem ending_leads {result : Except FaultRef Outcome} (h : p.ending host = (result, r)) :
    p.run.Leads host r :=
  (steps_evalNode _ _).of_run h

/-- The visits that were made before a visit has come so far have all ended well. -/
theorem Progress.earlier (h : p.Progress host os r) (sound : p.IsSound) (hk : host.KeepsTrees)
    {n : Nat} (less : n < os.length) :
    ∃ os₀ c o r₁, os₀.length = n ∧ p.Visits host os₀ c ∧ c.ending host = (.ok o, r₁) ∧
      r₁.Leads host r := by
  induction h with
  | entered budget enter => exact absurd less (Nat.not_lt_zero _)
  | @visited before r₀ slot v r₁ o r₂ progress decided visit ih =>
    have le : n ≤ before.length := by
      rw [List.length_append, List.length_singleton] at less
      omega
    obtain less | rfl := Nat.lt_or_eq_of_le le
    · have later := Run.Change.leads ((p.form.makes_next _).of_run decided)
      obtain ⟨os₀, c, o', r₁', length, visits, ending, leads⟩ := ih less
      exact ⟨os₀, c, o', r₁', length, visits, ending,
        (leads.trans later).trans ((steps_evalNode _ _).of_run visit)⟩
    · obtain ⟨c, rfl, child, -, rfl, cending⟩ := progress.child sound hk decided
      exact ⟨before, c, o, r₂, rfl, ⟨child.budget, _, slot, progress, decided⟩,
        cending.trans visit, .refl⟩

/-- A visit that was made before another one has ended when that one begins. -/
theorem Visits.ended (h : p.Visits host os c) (h' : p.Visits host os' d) (sound : p.IsSound)
    (hk : host.KeepsTrees) (less : os.length < os'.length) :
    ∃ o r, c.ending host = (.ok o, r) ∧ r.Leads host d.run := by
  obtain ⟨r₁, slot, progress, decided⟩ := h'.decided
  obtain ⟨os₀, c', o, r₂, length, visits, ending, leads⟩ := progress.earlier sound hk less
  obtain rfl := visits.unique h length
  exact ⟨o, r₂, ending,
    leads.trans (Run.Change.leads ((p.form.makes_next _).of_run decided))⟩

/-! ## On to the end -/

/-- The rule goes on to its end from wherever the visit has come to. -/
theorem Progress.rest (h : p.Progress host os r) (sound : p.IsSound) (hk : host.KeepsTrees) :
    ∃ q, GoesOn (evalNode host (p.budget - 1)) (p.form.next host) os r q ∧
      p.ending host = p.leaving host q := by
  induction h with
  | entered budget enter =>
    obtain ⟨q, ending, only⟩ := ending_eq_leaving sound hk budget enter
    exact ⟨q, (only q).2 rfl, ending⟩
  | visited before decided visit ih =>
    obtain ⟨q, goes, ending⟩ := ih
    refine ⟨q, ?_, ending⟩
    cases goes with
    | visits decided' visited rest =>
      rw [decided] at decided'
      cases decided'
      rw [visit] at visited
      cases visited
      exact rest
    | brokenBelow decided' visited =>
      rw [decided] at decided'
      cases decided'
      rw [visit] at visited
      cases visited
    | broken decided' | keeps decided' | finishes decided' =>
      rw [decided] at decided'
      cases decided'

theorem leads_of_goesOn {q : Except FaultRef Outcome × Run σ}
    (h : GoesOn (evalNode host (p.budget - 1)) (p.form.next host) os r q) :
    r.Leads host q.2 := by
  have decides : ∀ {os : List Outcome} {r r' : Run σ} {m : Except FaultRef Move},
      (p.form.next host os).runOn r = (m, r') → r.Leads host r' := fun decided =>
    Run.Change.leads ((p.form.makes_next _).of_run decided)
  induction h with
  | broken decided | keeps decided | finishes decided => exact decides decided
  | brokenBelow decided visited =>
    exact (decides decided).trans ((steps_evalNode _ _).of_run visited)
  | visits decided visited rest ih =>
    exact ((decides decided).trans ((steps_evalNode _ _).of_run visited)).trans ih

/-- A visit comes to its end from wherever it has come to. -/
theorem Progress.leads_ending (h : p.Progress host os r) (sound : p.IsSound)
    (hk : host.KeepsTrees) : r.Leads host (p.ending host).2 := by
  obtain ⟨q, goes, ending⟩ := h.rest sound hk
  rw [ending]
  refine (leads_of_goesOn goes).trans ?_
  obtain ⟨e | o, r'⟩ := q
  · exact .refl
  · exact ((steps_leaveNode _ _ o).bind fun _ => Work.makes_pure o) r'

/-- An evaluation comes to its end from the ends of the visits that it reaches. -/
theorem Reaches.leads_ending (h : p.Reaches host c) (sound : p.IsSound) (hk : host.KeepsTrees) :
    (c.ending host).2.Leads host (p.ending host).2 := by
  induction h using ReflTransGen.head_induction_on with
  | refl => exact .refl
  | @head p c' step _ ih =>
    obtain ⟨slot, child⟩ := step
    have leads := ih (child.isSound sound hk)
    obtain ⟨os, r, progress, decided⟩ := child.decided
    rcases ending : c'.ending host with ⟨e | o, r'⟩
    · rw [(ending_eq_error_iff sound hk).2 (.inr ⟨slot, c', child, ending⟩)]
      rwa [ending] at leads
    · rw [ending] at leads
      rw [← child.ending_eq] at ending
      exact leads.trans ((progress.visited decided ending).leads_ending sound hk)

/-- The visits that were made on the way to a good end have all ended well. -/
theorem ending_ok_of_reaches (h : p.Reaches host c) (sound : p.IsSound) (hk : host.KeepsTrees)
    (ending : p.ending host = (.ok o, r)) : ∃ o' r', c.ending host = (.ok o', r') := by
  rcases cending : c.ending host with ⟨e | o', r'⟩
  · have csound := isSound_of_reaches h sound hk
    obtain ⟨d, reached, broken⟩ := (ending_eq_error_iff_reaches csound hk).1 cending
    rw [(ending_eq_error_iff_reaches sound hk).2 ⟨d, h.trans reached, broken⟩] at ending
    cases ending
  · exact ⟨o', r', rfl⟩

/-- Below one visit the second has ended before the third begins: above both there is a visit that
has made the visits above them one after the other. -/
inductive Precedes (host : Host σ) (p c d : Position σ) : Prop
  | intro {a c' d' : Position σ} {os os' : List Outcome} (above : p.Reaches host a)
      (first : a.Visits host os c') (second : a.Visits host os' d')
      (earlier : os.length < os'.length) (below : c'.Reaches host c) (below' : d'.Reaches host d)

theorem Precedes.above {q : Position σ} (h : c.Precedes host d q) (reached : p.Reaches host c) :
    p.Precedes host d q := by
  obtain ⟨above, first, second, earlier, below, below'⟩ := h
  exact ⟨reached.trans above, first, second, earlier, below, below'⟩

/-- What precedes a visit has ended well, and from there the evaluation has come to that visit. -/
theorem Precedes.ended (h : p.Precedes host c d) (sound : p.IsSound) (hk : host.KeepsTrees) :
    ∃ o r, c.ending host = (.ok o, r) ∧ r.Leads host d.run := by
  obtain ⟨above, first, second, earlier, below, below'⟩ := h
  have asound := isSound_of_reaches above sound hk
  obtain ⟨o, r, ending, leads⟩ := first.ended second asound hk earlier
  have csound := first.isSound asound hk
  obtain ⟨o', r', cending⟩ := ending_ok_of_reaches below csound hk ending
  have ended := below.leads_ending csound hk
  rw [cending, ending] at ended
  exact ⟨o', r', cending, (ended.trans leads).trans below'.leads⟩

/-- Of two visits that are reached, one is above the other or one precedes the other. -/
theorem reaches_or_precedes (hc : p.Reaches host c) (hd : p.Reaches host d) :
    c.Reaches host d ∨ d.Reaches host c ∨ p.Precedes host c d ∨ p.Precedes host d c := by
  induction hc using ReflTransGen.head_induction_on with
  | refl => exact .inl hd
  | @head p c' step below ih =>
    obtain rfl | ⟨d', step', below'⟩ := hd.cases_head
    · exact .inr (.inl (.head step below))
    · obtain ⟨slot, child⟩ := step
      obtain ⟨slot', child'⟩ := step'
      obtain ⟨os, first⟩ := child.visits
      obtain ⟨os', second⟩ := child'.visits
      obtain less | same | less := Nat.lt_trichotomy os.length os'.length
      · exact .inr (.inr (.inl ⟨.refl, first, second, less, below, below'⟩))
      · obtain rfl := first.unique second same
        obtain h | h | h | h := ih below'
        · exact .inl h
        · exact .inr (.inl h)
        · exact .inr (.inr (.inl (h.above first.reaches)))
        · exact .inr (.inr (.inr (h.above first.reaches)))
      · exact .inr (.inr (.inr ⟨.refl, second, first, less, below', below⟩))

end Position

end Fallback
