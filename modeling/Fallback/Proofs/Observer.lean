import Fallback.Proofs.Agreement
import Fallback.Proofs.Limit
import Fallback.Proofs.Recording

/-!
Observers do not show.

An evaluation may be traced and it may be debugged, and both leave records in the world: notices in
the trace and lines in the debug log. Two evaluations that differ in nothing else are run side by
side here, from worlds that differ in records only. They end with the same result, the same store
and the same state of the host. Evaluations that are both traced, or both not, record the same
notices, whether they are debugged or not; evaluations with the same debug switch write the same
lines, whether they are traced or not. `Eval.IsDetached` says all of this of some work, and it is
closed under the ways in which work is put together.

## The side conditions

A routine of the host may start evaluations of its own that share the trace, so it may make
records, but it must not look at them: `Host.IsDetached`. By `isDetached_evaluate` a routine that
does no more than to evaluate in such a host is like that again. The debug switch has to be one that
can tell its truth, as every truth value does.
-/
namespace Fallback

variable {σ α β : Type} {host : Host σ}

/-! ## Worlds side by side -/

/-- Two worlds that came from earlier ones side by side: they are the same but for their records,
and the records that were made since are the same. -/
structure World.Parts (u u' w w' : World σ) : Prop where
  same : w.Same w'
  notices : ∃ ns, w.trace = u.trace.record ns ∧ w'.trace = u'.trace.record ns
  lines : ∃ ls, w.log = u.log ++ ls ∧ w'.log = u'.log ++ ls

namespace World.Parts

variable {u u' v v' w w' : World σ}

theorem refl (same : w.Same w') : w.Parts w' w w' :=
  ⟨same, ⟨[], rfl, rfl⟩, ⟨#[], (Array.append_empty).symm, (Array.append_empty).symm⟩⟩

theorem trans (h : u.Parts u' v v') (k : v.Parts v' w w') : u.Parts u' w w' := by
  obtain ⟨-, ⟨ns, notes, notes'⟩, ⟨ls, writes, writes'⟩⟩ := h
  obtain ⟨same, ⟨ms, more, more'⟩, ⟨ks, adds, adds'⟩⟩ := k
  refine ⟨same, ⟨ns ++ ms, ?_, ?_⟩, ⟨ls ++ ks, ?_, ?_⟩⟩
  · rw [more, notes, Trace.record_append]
  · rw [more', notes', Trace.record_append]
  · rw [adds, writes, Array.append_assoc]
  · rw [adds', writes', Array.append_assoc]

/-- Only the stores have changed, in the same way. -/
theorem withStore (same : w.Same w') {s t : Store} (stores : s = t) :
    w.Parts w' { w with store := s } { w' with store := t } := by
  obtain ⟨-, notices, lines⟩ := refl same
  exact ⟨⟨stores, same.host⟩, notices, lines⟩

end World.Parts

/-- What the work does has nothing to do with the records in the world, and from worlds side by side
it makes the same records. -/
def Act.IsDetached (x : Act σ α) : Prop :=
  ∀ ⦃w w' : World σ⦄, w.Same w' →
    (x.runOn w).1 = (x.runOn w').1 ∧ w.Parts w' (x.runOn w).2 (x.runOn w').2

theorem Act.isDetached_pure (a : α) : (pure a : Act σ α).IsDetached :=
  fun _ _ same => ⟨rfl, .refl same⟩

theorem Act.IsDetached.bind {x : Act σ α} {f : α → Act σ β} (hx : x.IsDetached)
    (hf : ∀ a, (f a).IsDetached) : (x >>= f).IsDetached := by
  intro w w' same
  obtain ⟨result, ends⟩ := hx same
  rw [Work.runOn_bind, Work.runOn_bind]
  generalize x.runOn w = p at result ends
  generalize x.runOn w' = p' at result ends
  obtain ⟨ended, v⟩ := p
  obtain ⟨_, v'⟩ := p'
  cases result
  cases ended with
  | error e => exact ⟨rfl, ends⟩
  | ok a =>
    obtain ⟨result, more⟩ := hf a ends.same
    exact ⟨result, ends.trans more⟩

/-- The host does not look at records. It may make some. -/
structure Host.IsDetached (host : Host σ) : Prop where
  run (r : RoutineRef) (args : List Value) : Act.IsDetached (Work.ofRun (host.run r args))
  truth (o : ObjectRef) : Act.IsDetached (Work.ofRun (host.truth o))

/-- With such a host all work in the world is like that. -/
theorem Act.Composed.isDetached (hd : host.IsDetached) {x : Act σ α} (hx : x.Composed host) :
    x.IsDetached := by
  induction hx with
  | pure a => exact isDetached_pure a
  | throw e => exact fun _ _ same => ⟨rfl, .refl same⟩
  | store =>
    intro w w' same
    rw [runOn_store, runOn_store, same.store]
    exact ⟨rfl, .refl same⟩
  | attempt h =>
    intro w w' same
    rw [runOn_ofAttempt, runOn_ofAttempt, same.store]
    exact ⟨rfl, .withStore same rfl⟩
  | @modify f h => exact fun _ _ same => ⟨rfl, .withStore same (congrArg f same.store)⟩
  | run r args => exact hd.run r args
  | truth o => exact hd.truth o
  | guarded _ ih =>
    intro w w' same
    obtain ⟨result, ends⟩ := ih same
    rw [Work.runOn_guarded, Work.runOn_guarded, result]
    exact ⟨rfl, ends⟩
  | bind _ _ ihx ihf => exact ihx.bind ihf

/-! ## Frames side by side -/

/-- The frame with another debug switch, and traced or not. -/
def Frame.observed (f : Frame) (debug : Value) (traced : Bool) : Frame :=
  { f with debug, traced }

theorem Frame.push_observed (f : Frame) (debug : Value) (traced : Bool) (v : Value) :
    (f.observed debug traced).push v = (f.push v).map (·.observed debug traced) := by
  obtain ⟨isOpen, push⟩ | ⟨closed, full, push⟩ | ⟨closed, room, push⟩ := f.push_cases v
  · rw [push]
    simp [Frame.push, observed, isOpen, Except.map]
  · rw [push]
    have full : f.maxDepth ≤ f.stack.length := full
    simp [Frame.push, observed, Frame.depth, closed, full, Except.map]
  · have more : ¬f.maxDepth ≤ f.stack.length := Nat.not_le_of_lt room
    rw [push]
    simp [Frame.push, observed, Frame.depth, closed, more, Except.map]

theorem Frame.pop_observed (f : Frame) (debug : Value) (traced : Bool) (v : Value) :
    (f.observed debug traced).pop v = ((f.pop v).1, (f.pop v).2.observed debug traced) := by
  unfold pop observed
  dsimp only
  split
  · rfl
  · split <;> rfl

/-- Evaluations side by side: they differ in their observers and in the records of their worlds
only, and both can tell the truth of their debug switches. -/
structure Run.Beside (host : Host σ) (r r' : Run σ) : Prop where
  frame : r'.frame = r.frame.observed r'.frame.debug r'.frame.traced
  world : r.world.Same r'.world
  answers : host.Answers r.frame.debug
  answers' : host.Answers r'.frame.debug

/-- Two evaluations have gone on side by side. If both are traced or both are not, they have
recorded the same notices since, and if they have the same debug switch, they have written the same
lines. -/
structure Run.Parts (host : Host σ) (r r' u u' : Run σ) : Prop where
  beside : u.Beside host u'
  kept : u.frame.debug = r.frame.debug ∧ u.frame.traced = r.frame.traced
  kept' : u'.frame.debug = r'.frame.debug ∧ u'.frame.traced = r'.frame.traced
  notices : r.frame.traced = r'.frame.traced →
    ∃ ns, u.world.trace = r.world.trace.record ns ∧ u'.world.trace = r'.world.trace.record ns
  lines : r.frame.debug = r'.frame.debug →
    ∃ ls, u.world.log = r.world.log ++ ls ∧ u'.world.log = r'.world.log ++ ls

namespace Run.Parts

variable {r r' u u' v v' : Run σ}

theorem refl (beside : r.Beside host r') : Run.Parts host r r' r r' :=
  ⟨beside, ⟨rfl, rfl⟩, ⟨rfl, rfl⟩, fun _ => ⟨[], rfl, rfl⟩,
    fun _ => ⟨#[], (Array.append_empty).symm, (Array.append_empty).symm⟩⟩

theorem trans (h : Run.Parts host r r' u u') (k : Run.Parts host u u' v v') :
    Run.Parts host r r' v v' := by
  refine ⟨k.beside, ⟨k.kept.1.trans h.kept.1, k.kept.2.trans h.kept.2⟩,
    ⟨k.kept'.1.trans h.kept'.1, k.kept'.2.trans h.kept'.2⟩, fun traced => ?_, fun switch => ?_⟩
  · obtain ⟨ns, notes, notes'⟩ := h.notices traced
    obtain ⟨ms, more, more'⟩ := k.notices (h.kept.2.trans (traced.trans h.kept'.2.symm))
    refine ⟨ns ++ ms, ?_, ?_⟩
    · rw [more, notes, Trace.record_append]
    · rw [more', notes', Trace.record_append]
  · obtain ⟨ls, writes, writes'⟩ := h.lines switch
    obtain ⟨ks, adds, adds'⟩ := k.lines (h.kept.1.trans (switch.trans h.kept'.1.symm))
    refine ⟨ls ++ ks, ?_, ?_⟩
    · rw [adds, writes, Array.append_assoc]
    · rw [adds', writes', Array.append_assoc]

/-- Only the worlds have changed, side by side. -/
theorem ofWorlds (beside : r.Beside host r') {w w' : World σ}
    (h : r.world.Parts r'.world w w') :
    Run.Parts host r r' { r with world := w } { r' with world := w' } :=
  ⟨⟨beside.frame, h.same, beside.answers, beside.answers'⟩, ⟨rfl, rfl⟩, ⟨rfl, rfl⟩,
    fun _ => h.notices, fun _ => h.lines⟩

/-- Only the frames have changed, and the observers are the same as before. -/
theorem ofFrames (beside : r.Beside host r') {f : Frame} (debug : f.debug = r.frame.debug)
    (traced : f.traced = r.frame.traced) :
    Run.Parts host r r' { r with frame := f }
      { r' with frame := f.observed r'.frame.debug r'.frame.traced } :=
  ⟨⟨rfl, beside.world, debug ▸ beside.answers, beside.answers'⟩, ⟨debug, traced⟩, ⟨rfl, rfl⟩,
    fun _ => ⟨[], rfl, rfl⟩,
    fun _ => ⟨#[], (Array.append_empty).symm, (Array.append_empty).symm⟩⟩

end Run.Parts

/-! ## Work that observers do not touch -/

/-- Evaluations side by side do the same work: they end with the same result and go on side by
side. -/
def Eval.IsDetached (host : Host σ) (x : Eval σ α) : Prop :=
  ∀ ⦃r r' : Run σ⦄, r.Beside host r' →
    (x.runOn r).1 = (x.runOn r').1 ∧ Run.Parts host r r' (x.runOn r).2 (x.runOn r').2

namespace Eval

theorem isDetached_pure (a : α) : IsDetached host (pure a) :=
  fun _ _ beside => ⟨rfl, .refl beside⟩

theorem IsDetached.bind {x : Eval σ α} {f : α → Eval σ β} (hx : IsDetached host x)
    (hf : ∀ a, IsDetached host (f a)) : IsDetached host (x >>= f) := by
  intro r r' beside
  obtain ⟨result, parts⟩ := hx beside
  rw [Work.runOn_bind, Work.runOn_bind]
  generalize x.runOn r = p at result parts
  generalize x.runOn r' = p' at result parts
  obtain ⟨ended, u⟩ := p
  obtain ⟨_, u'⟩ := p'
  cases result
  cases ended with
  | error e => exact ⟨rfl, parts⟩
  | ok a =>
    obtain ⟨result, more⟩ := hf a parts.beside
    exact ⟨result, parts.trans more⟩

theorem isDetached_ite {c : Prop} [Decidable c] {x y : Eval σ α} (hx : IsDetached host x)
    (hy : IsDetached host y) : IsDetached host (if c then x else y) := by
  split
  · exact hx
  · exact hy

theorem isDetached_act (hd : host.IsDetached) {x : Act σ α} (hx : x.Composed host) :
    IsDetached host (ofAct x) := by
  intro r r' beside
  obtain ⟨result, ends⟩ := hx.isDetached hd beside.world
  exact ⟨result, .ofWorlds beside ends⟩

theorem isDetached_attempt (hd : host.IsDetached) {x : Attempt α} (hx : x.Makes Store.Change) :
    IsDetached host (ofAttempt x) :=
  isDetached_act hd (.attempt hx)

theorem isDetached_store : IsDetached host (store : Eval σ Store) := by
  intro r r' beside
  rw [runOn_store, runOn_store, beside.world.store]
  exact ⟨rfl, .refl beside⟩

theorem isDetached_modifyStore (f : Store → Store) :
    IsDetached host (modifyStore f : Eval σ Unit) :=
  fun _ _ beside =>
    ⟨rfl, .ofWorlds beside (.withStore beside.world (congrArg f beside.world.store))⟩

/-- An observation is noted by the evaluations that are traced. -/
theorem isDetached_observe (n : Notice) :
    IsDetached host (observe fun t => t.note n : Eval σ Unit) := by
  intro r r' beside
  have runs (r : Run σ) : (observe fun t => t.note n : Eval σ Unit).runOn r = (.ok (),
      { r with world := { r.world with
        trace := if r.frame.traced then r.world.trace.note n else r.world.trace } }) := by
    simp only [observe, Work.runOn_modify]
    split <;> rfl
  rw [runs r, runs r']
  refine ⟨rfl, ⟨beside.frame, ⟨beside.world.store, beside.world.host⟩, beside.answers,
    beside.answers'⟩, ⟨rfl, rfl⟩, ⟨rfl, rfl⟩, fun traced => ?_,
    fun _ => ⟨#[], (Array.append_empty).symm, (Array.append_empty).symm⟩⟩
  dsimp only
  rw [← traced]
  split
  · exact ⟨[n], rfl, rfl⟩
  · exact ⟨[], rfl, rfl⟩

end Eval

open Eval

/-- A debug record is written by the evaluations that are debugged. -/
theorem isDetached_debug (hd : host.IsDetached) {record : Frame → LogRecord}
    (blind : ∀ f debug traced, record (f.observed debug traced) = record f) :
    IsDetached host (debug host record) := by
  intro r r' beside
  have wrote (r : Run σ) (answers : host.Answers r.frame.debug) : ∃ ls,
      (debug host record).runOn r =
        (.ok (), { r with world := { r.world with log := r.world.log ++ ls } }) := by
    obtain ⟨b, tested⟩ := answers r.world
    rw [runOn_debug, tested]
    cases b with
    | true => exact ⟨#[record r.frame], by simp⟩
    | false => exact ⟨#[], by simp⟩
  by_cases switch : r.frame.debug = r'.frame.debug
  · obtain ⟨b, tested⟩ := beside.answers r.world
    obtain ⟨b', tested'⟩ := beside.answers' r'.world
    have same : b = b' := by
      have test : Act.Composed host (truthTest host r.frame.debug) := composed_truthTest _
      have found := (test.isDetached hd beside.world).1
      rw [tested, switch, tested'] at found
      exact Except.ok.inj found
    have records : record r'.frame = record r.frame := by
      rw [beside.frame, blind]
    rw [runOn_debug, runOn_debug, tested, tested', same, records]
    refine ⟨rfl, .ofWorlds beside ?_⟩
    cases b' with
    | true =>
      exact ⟨⟨beside.world.store, beside.world.host⟩, ⟨[], rfl, rfl⟩,
        ⟨#[record r.frame], by simp, by simp⟩⟩
    | false => exact .refl beside.world
  · -- of evaluations with different switches nothing is asked about the lines that they write
    obtain ⟨ls, writes⟩ := wrote r beside.answers
    obtain ⟨ls', writes'⟩ := wrote r' beside.answers'
    rw [writes, writes']
    exact ⟨rfl, ⟨⟨beside.frame, ⟨beside.world.store, beside.world.host⟩, beside.answers,
      beside.answers'⟩, ⟨rfl, rfl⟩, ⟨rfl, rfl⟩, fun _ => ⟨[], rfl, rfl⟩,
      fun same => absurd same switch⟩⟩

section Nodes

variable (hd : host.IsDetached)
include hd

theorem isDetached_report (place : Value) (refusal : Frame.Refusal) :
    IsDetached host (Eval.ofAttempt (refusal.report place) : Eval σ α) := by
  cases refusal with
  | cyclic | tooDeep =>
    exact isDetached_attempt hd ((Attempt.makes_newFaultAt _ _ _).bind fun _ => Work.makes_throw _)
  | nothingOpen | unbalanced => exact isDetached_attempt hd (Attempt.makes_fail _ _)

theorem isDetached_openNode (v : Value) : IsDetached host (openNode v) := by
  intro r r' beside
  have pushes : r'.frame.push v =
      (r.frame.push v).map (·.observed r'.frame.debug r'.frame.traced) := by
    rw [← Frame.push_observed, ← beside.frame]
  rcases push : r.frame.push v with refusal | f
  · rw [push] at pushes
    have runs (r : Run σ) (push : r.frame.push v = .error refusal) : (openNode v).runOn r =
        (Eval.ofAttempt (refusal.report (r.world.store.placeOf v)) : Eval σ Unit).runOn r := by
      simp only [openNode, Work.runOn_bind, Work.runOn_get, push]
    rw [runs r push, runs r' pushes, ← beside.world.store]
    exact isDetached_report hd _ refusal beside
  · rw [push] at pushes
    rw [runOn_openNode_of_push push, runOn_openNode_of_push pushes]
    obtain ⟨-, debug, traced⟩ := Frame.settings_of_push push
    exact ⟨rfl, .ofFrames beside debug traced⟩

theorem isDetached_closeNode (v : Value) : IsDetached host (closeNode v) := by
  intro r r' beside
  have pops : r'.frame.pop v = ((r.frame.pop v).1,
      (r.frame.pop v).2.observed r'.frame.debug r'.frame.traced) := by
    rw [← Frame.pop_observed, ← beside.frame]
  have settings : (r.frame.pop v).2.debug = r.frame.debug ∧
      (r.frame.pop v).2.traced = r.frame.traced := by
    unfold Frame.pop
    dsimp only
    split
    · exact ⟨rfl, rfl⟩
    · split <;> exact ⟨rfl, rfl⟩
  have closes := Run.Parts.ofFrames beside settings.1 settings.2
  rcases pop : r.frame.pop v with ⟨refusal | u, f⟩
  · rw [pop] at pops closes
    have runs (r : Run σ) (f : Frame) (pop : r.frame.pop v = (.error refusal, f)) :
        (closeNode v).runOn r = (Eval.ofAttempt (refusal.report (r.world.store.placeOf v)) :
          Eval σ Unit).runOn { r with frame := f } := by
      simp only [closeNode, Work.runOn_bind, Work.runOn_get, pop, Work.runOn_set]
    rw [runs r _ pop, runs r' _ pops, ← beside.world.store]
    obtain ⟨result, parts⟩ := isDetached_report hd _ refusal closes.beside
    exact ⟨result, closes.trans parts⟩
  · rw [pop] at pops closes
    rw [runOn_closeNode_of_pop pop, runOn_closeNode_of_pop pops]
    exact ⟨rfl, closes⟩

theorem isDetached_enterNode (v : Value) : IsDetached host (enterNode host v) := by
  refine (isDetached_openNode hd v).bind fun _ => isDetached_store.bind fun s => ?_
  exact (isDetached_debug hd fun _ _ _ => rfl).bind fun _ =>
    (isDetached_observe (.enter v)).bind fun _ => isDetached_pure _

theorem isDetached_leaveNode (v : Value) (kind : String) (o : Outcome) :
    IsDetached host (leaveNode host v kind o) :=
  (isDetached_modifyStore _).bind fun _ => (isDetached_observe (.exit v o.toValue)).bind fun _ =>
    (isDetached_debug hd fun _ _ _ => rfl).bind fun _ => isDetached_closeNode hd v

/-! ## The rules -/

variable {eval : Value → Eval σ Outcome} (heval : ∀ v, IsDetached host (eval v))

theorem isDetached_lookup (name : Value) :
    IsDetached host (do Eval.ofAct (lookup (← Eval.frame).vars name) : Eval σ Outcome) := by
  intro r r' beside
  have vars : r'.frame.vars = r.frame.vars := by
    rw [beside.frame]
    rfl
  rw [Work.runOn_bind_ok (runOn_frame r), Work.runOn_bind_ok (runOn_frame r'), vars]
  exact isDetached_act hd (composed_lookup _ _) beside

include heval

omit hd in
theorem isDetached_evalArgs (items : List Value) : IsDetached host (evalArgs eval items) := by
  induction items with
  | nil => exact isDetached_pure _
  | cons v items ih =>
    refine (heval v).bind fun o => ?_
    split
    · exact isDetached_pure _
    · refine ih.bind fun walked => ?_
      cases walked with
      | error o => exact isDetached_pure _
      | ok vs => exact isDetached_pure _

omit hd in
theorem isDetached_evalAdded (args : Value) (known : Nat) :
    IsDetached host (evalAdded eval args known) := by
  refine isDetached_store.bind fun s => ?_
  generalize ((s.items? args).getD []).drop known = added
  induction added with
  | nil => exact isDetached_pure _
  | cons v added ih =>
    exact ((heval v).bind fun _ => isDetached_pure _).bind fun _ => ih

theorem isDetached_evalCall (callee args : Value) :
    IsDetached host (evalCall host eval callee args) := by
  refine (heval callee).bind fun o => ?_
  split
  · exact isDetached_pure _
  · refine (isDetached_attempt hd (Attempt.makes_ask _)).bind fun vs =>
      (isDetached_evalArgs heval vs).bind fun walked => ?_
    cases walked with
    | error o => exact isDetached_pure _
    | ok vs =>
      exact (isDetached_evalAdded heval _ _).bind fun _ =>
        isDetached_act hd (composed_callValue _ _)

omit heval in
theorem isDetached_onTruth (v : Value) {x y : Eval σ Outcome} (hx : IsDetached host x)
    (hy : IsDetached host y) : IsDetached host (do
      match ← Eval.ofAct (truthOrFailure host v) with
      | .error e => Eval.ofAct (Act.raised (.fault e))
      | .ok b => if b then x else y : Eval σ Outcome) := by
  refine (isDetached_act hd (composed_truthOrFailure v)).bind fun tested => ?_
  cases tested with
  | error e => exact isDetached_act hd (Act.composed_raised _)
  | ok b => exact isDetached_ite hx hy

theorem isDetached_evalFallback (op : Operator) (lhs rhs : Value) :
    IsDetached host (evalFallback host eval op lhs rhs) := by
  refine (heval lhs).bind fun o => ?_
  split
  · exact isDetached_pure _
  · exact (isDetached_debug hd fun _ _ _ => rfl).bind fun _ => heval rhs
  · exact isDetached_pure _
  · exact isDetached_ite (heval rhs) (isDetached_pure _)
  · exact isDetached_onTruth hd _ (isDetached_pure _) (heval rhs)

theorem isDetached_evalForm (f : Form) : IsDetached host (evalForm host eval f) := by
  cases f with
  | literal v => exact isDetached_act hd (Act.composed_success v)
  | reference name => exact isDetached_lookup hd name
  | call callee args => exact isDetached_evalCall hd heval callee args
  | fallback op lhs rhs => exact isDetached_evalFallback hd heval op lhs rhs
  | ternary condition thenBranch elseBranch =>
    refine (heval condition).bind fun o => ?_
    split
    · exact isDetached_pure _
    · exact isDetached_onTruth hd _ (heval thenBranch) (heval elseBranch)
  | raise exception => exact isDetached_act hd (composed_evalRaise exception)

end Nodes

/-- Observers do not touch the evaluation of a node. -/
theorem isDetached_evalNode (hd : host.IsDetached) (budget : Nat) (v : Value) :
    IsDetached host (evalNode host budget v) := by
  induction budget generalizing v with
  | zero =>
    exact (isDetached_openNode hd v).bind fun _ =>
      isDetached_attempt hd (Attempt.makes_misuse _)
  | succ budget ih =>
    refine (isDetached_enterNode hd v).bind fun kind => IsDetached.bind ?_ fun o =>
      (isDetached_leaveNode hd v kind o).bind fun _ => isDetached_pure _
    refine isDetached_store.bind fun s => ?_
    cases v with
    | node n => exact isDetached_evalForm hd ih _
    | _ =>
      exact isDetached_attempt hd
        ((Attempt.makes_newFaultAt _ _ _).bind fun _ => Work.makes_throw _)

/-! ## Whole evaluations -/

/-- The requests differ in their observers only. -/
structure Request.Beside (host : Host σ) (q q' : Request) : Prop where
  environment : q.environment = q'.environment
  limit : q.frame.maxDepth = q'.frame.maxDepth
  answers : host.Answers q.options.debugTrace
  answers' : host.Answers q'.options.debugTrace

variable {q q' : Request} {w w' : World σ}

/-- Evaluations that differ in their observers and in the records of their worlds only, run side by
side. -/
theorem parts_evaluate (hd : host.IsDetached) (beside : q.Beside host q') (same : w.Same w')
    (root : Value) :
    ((evaluate host q root).runOn w).1 = ((evaluate host q' root).runOn w').1 ∧
    Run.Parts host ⟨q.frame, w⟩ ⟨q'.frame, w'⟩ ⟨q.frame, ((evaluate host q root).runOn w).2⟩
      ⟨q'.frame, ((evaluate host q' root).runOn w').2⟩ := by
  have frames : q'.frame = q.frame.observed q'.frame.debug q'.frame.traced := by
    have vars : q'.frame.vars = q.frame.vars := beside.environment.symm
    have limit := beside.limit.symm
    rw [Request.frame, Frame.start] at vars limit ⊢
    simpa [Frame.observed, Request.frame, Frame.start] using And.intro vars limit
  have start : Run.Beside host ⟨q.frame, w⟩ ⟨q'.frame, w'⟩ :=
    ⟨frames, same, beside.answers, beside.answers'⟩
  rw [evaluate, evaluate]
  split
  · have evals := isDetached_evalNode hd q.frame.maxDepth root start
    rw [← beside.limit, runOn_inFrame, runOn_inFrame]
    obtain ⟨result, ends, -, -, notices, lines⟩ := evals
    exact ⟨result, ⟨⟨frames, ends.world, beside.answers, beside.answers'⟩, ⟨rfl, rfl⟩, ⟨rfl, rfl⟩,
      notices, lines⟩⟩
  · have refuses : Act.Composed host (do
        Act.ofAttempt (Attempt.malformed .null
          ("Expected an expression node, got " ++ (← Act.store).typeName root)) :
          Act σ Outcome) :=
      .bind .store fun _ => .attempt ((Attempt.makes_newFaultAt _ _ _).bind fun _ =>
        Work.makes_throw _)
    obtain ⟨result, ends⟩ := refuses.isDetached hd same
    exact ⟨result, .ofWorlds start ends⟩

/-- A routine that evaluates in a host that does not look at records does not look at them either,
though it may share the trace. -/
theorem isDetached_evaluate (hd : host.IsDetached) (answers : host.Answers q.options.debugTrace)
    (root : Value) : (evaluate host q root).IsDetached := by
  intro w w' same
  obtain ⟨result, parts⟩ := parts_evaluate hd ⟨rfl, rfl, answers, answers⟩ same root
  exact ⟨result, parts.beside.world, parts.notices rfl, parts.lines rfl⟩

/-- Whether an evaluation is traced and debugged makes no difference to what it ends with, to the
store, in which every invocation is noted with its arguments, and to the state of the host. Whether
it is debugged makes no difference to what is recorded in the trace, and whether it is traced makes
none to what is written to the debug log. -/
theorem runOn_evaluate_of_beside (hd : host.IsDetached) (beside : q.Beside host q')
    (same : w.Same w') (root : Value) :
    ((evaluate host q root).runOn w).1 = ((evaluate host q' root).runOn w').1 ∧
    ((evaluate host q root).runOn w).2.store = ((evaluate host q' root).runOn w').2.store ∧
    ((evaluate host q root).runOn w).2.host = ((evaluate host q' root).runOn w').2.host ∧
    (q.traced = q'.traced → ∃ ns,
      ((evaluate host q root).runOn w).2.trace = w.trace.record ns ∧
      ((evaluate host q' root).runOn w').2.trace = w'.trace.record ns) ∧
    (q.options.debugTrace = q'.options.debugTrace → ∃ ls,
      ((evaluate host q root).runOn w).2.log = w.log ++ ls ∧
      ((evaluate host q' root).runOn w').2.log = w'.log ++ ls) := by
  obtain ⟨result, parts⟩ := parts_evaluate hd beside same root
  exact ⟨result, parts.beside.world.store, parts.beside.world.host, parts.notices, parts.lines⟩

/-- What is asked of an evaluation that a routine starts and that shares the trace. -/
def Request.sharing : Request :=
  { Request.standard with traced := true }

/-- Evaluates the first node and gives back the outcome. -/
def nestedEvaluation : Act Unit Value := do
  return (← evaluate Host.idle .sharing (.node ⟨0⟩)).toValue

/-- A host whose routines evaluate the first node. -/
def nestingHost : Host Unit :=
  ⟨fun _ _ => nestedEvaluation.runOn, Host.idle.truth⟩

theorem isDetached_idle : Host.idle.IsDetached :=
  ⟨fun _ _ _ _ same => ⟨rfl, .refl same⟩, fun _ _ _ same => ⟨rfl, .refl same⟩⟩

theorem isDetached_nestingHost : nestingHost.IsDetached := by
  have told : Host.idle.Answers Request.sharing.options.debugTrace :=
    answers_of_isHosted_eq_false rfl
  have nested : nestedEvaluation.IsDetached :=
    (isDetached_evaluate isDetached_idle told _).bind fun _ => Act.isDetached_pure _
  exact ⟨fun _ _ => nested, isDetached_idle.truth⟩

/-- A world with a call of the routine. -/
def nestingWorld : World Unit :=
  ⟨{ Store.empty with nodes := #[
      ⟨.literal .null, .null, []⟩,
      ⟨.literal (.routine ⟨0⟩), .null, []⟩,
      ⟨.call (.node ⟨1⟩) (.tuple [] Store.noStamp), .null, []⟩] }, .empty, #[], ()⟩

/-- A call that starts an evaluation which shares the trace records the same when it is debugged and
when a node is open already in the trace. -/
theorem runOn_evaluate_of_nesting :
    let q : Request := { Request.sharing with options := { Options.standard with
      debugTrace := .bool true } }
    let w' : World Unit := { nestingWorld with trace := Trace.empty.enter (.node ⟨1⟩) }
    nestingHost.IsDetached ∧ q.Beside nestingHost .sharing ∧ nestingWorld.Same w' ∧
    ((evaluate nestingHost q (.node ⟨2⟩)).runOn nestingWorld).1 =
      ((evaluate nestingHost .sharing (.node ⟨2⟩)).runOn w').1 ∧
    ((evaluate nestingHost q (.node ⟨2⟩)).runOn nestingWorld).2.log.size = 4 ∧
    ((evaluate nestingHost .sharing (.node ⟨2⟩)).runOn w').2.log.size = 0 ∧
    ∃ ns, ((evaluate nestingHost q (.node ⟨2⟩)).runOn nestingWorld).2.trace =
        nestingWorld.trace.record ns ∧
      ((evaluate nestingHost .sharing (.node ⟨2⟩)).runOn w').2.trace = w'.trace.record ns := by
  intro q w'
  have beside : q.Beside nestingHost .sharing :=
    ⟨rfl, rfl, answers_of_isHosted_eq_false rfl, answers_of_isHosted_eq_false rfl⟩
  have same : nestingWorld.Same w' := ⟨rfl, rfl⟩
  obtain ⟨result, -, -, notices, -⟩ :=
    runOn_evaluate_of_beside isDetached_nestingHost beside same (.node ⟨2⟩)
  exact ⟨isDetached_nestingHost, beside, same, result, by decide +kernel, by decide +kernel,
    notices rfl⟩

end Fallback
