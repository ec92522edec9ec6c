import Fallback.Proofs.Failure

/-!
The same evaluation in two hosts.

An evaluation deals with its host in one way only: it asks for a routine to be run or for an object
to be tested. `Host.Linked` says of two hosts that they answer alike in worlds that differ in the
states of the hosts only, and that a relation of these states lasts. By `linked_evaluate` the same
evaluation ends in both hosts with the same result, and again in such worlds. The environments need
not be the same, either: it is enough that they agree on the names that the tree can look up,
`Store.Reads`.

The states of the two hosts may be of different types, so one host may keep a record of its own of
what it is asked for.
-/
namespace Fallback

open Relation (ReflTransGen)

/-! ## Work side by side -/

/-- From related states the two works end with the same result, and in related states. -/
def Work.Relates {S T α : Type} (R : S → T → Prop) (x : Work S α) (y : Work T α) : Prop :=
  ∀ ⦃s t⦄, R s t → (x.runOn s).1 = (y.runOn t).1 ∧ R (x.runOn s).2 (y.runOn t).2

namespace Work

variable {S T α β : Type} {R : S → T → Prop}

theorem relates_pure (a : α) : Relates R (pure a) (pure a) := fun _ _ related => ⟨rfl, related⟩

theorem Relates.bind {x : Work S α} {y : Work T α} {f : α → Work S β} {g : α → Work T β}
    (hx : Relates R x y) (hf : ∀ a, Relates R (f a) (g a)) : Relates R (x >>= f) (y >>= g) := by
  intro s t related
  obtain ⟨result, ends⟩ := hx related
  rw [runOn_bind, runOn_bind]
  generalize x.runOn s = p at result ends
  generalize y.runOn t = q at result ends
  obtain ⟨ended, u⟩ := p
  obtain ⟨_, v⟩ := q
  cases result
  cases ended with
  | error e => exact ⟨rfl, ends⟩
  | ok a => exact hf a ends

theorem relates_ite {c : Prop} [Decidable c] {x x' : Work S α} {y y' : Work T α}
    (hx : Relates R x y) (hx' : Relates R x' y') :
    Relates R (if c then x else x') (if c then y else y') := by
  split
  · exact hx
  · exact hx'

end Work

open Work

/-! ## Linked worlds and hosts -/

/-- The worlds differ in the states of the hosts only, and these are linked. -/
structure World.Linked {σ τ : Type} (link : σ → τ → Prop) (w : World σ) (w' : World τ) :
    Prop where
  store : w.store = w'.store
  trace : w.trace = w'.trace
  log : w.log = w'.log
  host : link w.host w'.host

/-- The hosts answer alike in linked worlds, and leave linked worlds. -/
structure Host.Linked {σ τ : Type} (link : σ → τ → Prop) (host : Host σ) (host' : Host τ) :
    Prop where
  run (r : RoutineRef) (args : List Value) :
    Relates (World.Linked link) (ofRun (host.run r args)) (ofRun (host'.run r args))
  truth (o : ObjectRef) :
    Relates (World.Linked link) (ofRun (host.truth o)) (ofRun (host'.truth o))

section Acts

variable {σ τ α : Type} {link : σ → τ → Prop} {host : Host σ} {host' : Host τ}

theorem World.Linked.withStore {w : World σ} {w' : World τ} (h : w.Linked link w') {s t : Store}
    (stores : s = t) : World.Linked link { w with store := s } { w' with store := t } :=
  ⟨stores, h.trace, h.log, h.host⟩

/-- Work that is put together for two linked hosts goes the same way in both. -/
theorem Act.Matched.relates (linked : host.Linked link host') {x : Act σ α} {y : Act τ α}
    (h : Matched host host' x y) : Relates (World.Linked link) x y := by
  induction h with
  | pure a => exact relates_pure a
  | throw e => exact fun _ _ worlds => ⟨rfl, worlds⟩
  | store =>
    intro w w' worlds
    rw [runOn_store, runOn_store, worlds.store]
    exact ⟨rfl, worlds⟩
  | attempt _ =>
    intro w w' worlds
    rw [runOn_ofAttempt, runOn_ofAttempt, worlds.store]
    exact ⟨rfl, worlds.withStore rfl⟩
  | @modify f _ => exact fun _ _ worlds => ⟨rfl, worlds.withStore (congrArg f worlds.store)⟩
  | run r args => exact linked.run r args
  | truth o => exact linked.truth o
  | guarded _ ih =>
    intro w w' worlds
    obtain ⟨result, ends⟩ := ih worlds
    rw [Work.runOn_guarded, Work.runOn_guarded, result]
    exact ⟨rfl, ends⟩
  | bind _ _ ihx ihf => exact ihx.bind ihf

end Acts

/-! ## Linked evaluations -/

namespace Frame

/-- The frame with another environment. -/
def within (f : Frame) (vars : Environment) : Frame :=
  { f with vars }

theorem push_within (f : Frame) (vars : Environment) (v : Value) :
    (f.within vars).push v = (f.push v).map (·.within vars) := by
  show (if f.active.contains v.identity then _ else if f.maxDepth ≤ f.depth then _ else _) = _
  rw [push]
  split
  · rfl
  · split <;> rfl

theorem pop_within (f : Frame) (vars : Environment) (v : Value) :
    (f.within vars).pop v = ((f.pop v).1, (f.pop v).2.within vars) := by
  unfold pop within
  dsimp only
  split
  · rfl
  · split <;> rfl

theorem vars_pop (f : Frame) (v : Value) : (f.pop v).2.vars = f.vars := by
  unfold pop
  dsimp only
  split
  · rfl
  · split <;> rfl

end Frame

/-- Some node at or below a node looks up the name. -/
def Store.Reads (s : Store) (n : NodeRef) (text : String) : Prop :=
  ∃ m name, ReflTransGen s.Operand n m ∧ s.form m = .reference name ∧ s.text? name = some text

/-- The evaluations run in linked worlds, in which what lasts of a store is left. Their frames are
the same but for environments that agree on some names. -/
structure Run.Linked {σ τ : Type} (link : σ → τ → Prop) (base : Store) (names : String → Prop)
    (r : Run σ) (r' : Run τ) : Prop where
  world : r.world.Linked link r'.world
  le : base ≤ r.world.store
  frame : r'.frame = r.frame.within r'.frame.vars
  agree {text : String} (h : names text) : r.frame.vars.get? text = r'.frame.vars.get? text

section Evals

variable {σ τ α : Type} {link : σ → τ → Prop} {host : Host σ} {host' : Host τ} {base : Store}
  {names : String → Prop}

namespace Run.Linked

variable {r : Run σ} {r' : Run τ}

/-- Only the worlds have changed. -/
theorem withWorlds (h : r.Linked link base names r') {w : World σ} {w' : World τ}
    (worlds : w.Linked link w') (le : base ≤ w.store) :
    Run.Linked link base names { r with world := w } { r' with world := w' } :=
  ⟨worlds, le, h.frame, h.agree⟩

/-- Only the frames have changed, and the environments are the same as before. -/
theorem withFrames (h : r.Linked link base names r') {f : Frame} (vars : f.vars = r.frame.vars) :
    Run.Linked link base names { r with frame := f } { r' with frame := f.within r'.frame.vars } :=
  ⟨h.world, h.le, rfl, fun name => (congrArg (Environment.get? · _) vars).trans (h.agree name)⟩

end Run.Linked

theorem relates_store :
    Relates (Run.Linked link base names) (Eval.store : Eval σ Store) Eval.store := by
  intro r r' h
  rw [Eval.runOn_store, Eval.runOn_store, h.world.store]
  exact ⟨rfl, h⟩

theorem relates_modifyStore {f : Store → Store} (le : ∀ s, s ≤ f s) :
    Relates (Run.Linked link base names) (Eval.modifyStore f : Eval σ Unit)
      (Eval.modifyStore f) := by
  intro r r' h
  have stores : f r.world.store = f r'.world.store := congrArg f h.world.store
  exact ⟨rfl, h.withWorlds (h.world.withStore stores) (le_trans h.le (le _))⟩

theorem relates_observe (f : Trace → Trace) :
    Relates (Run.Linked link base names) (Eval.observe f : Eval σ Unit) (Eval.observe f) := by
  intro r r' h
  have traced : r'.frame.traced = r.frame.traced := by
    rw [h.frame]
    rfl
  rw [Eval.observe, Eval.observe, Work.runOn_modify, Work.runOn_modify, traced]
  refine ⟨rfl, ?_⟩
  dsimp only
  split
  · exact ⟨⟨h.world.store, congrArg f h.world.trace, h.world.log, h.world.host⟩, h.le, h.frame,
      h.agree⟩
  · exact h

section Hosts

variable (linked : host.Linked link host') (hk : host.KeepsTrees)
include linked hk

theorem relates_act {x : Act σ α} {y : Act τ α} (h : Act.Matched host host' x y) :
    Relates (Run.Linked link base names) (Eval.ofAct x) (Eval.ofAct y) := by
  intro r r' linkedRuns
  obtain ⟨result, ends⟩ := h.relates linked linkedRuns.world
  exact ⟨result, linkedRuns.withWorlds ends (le_trans linkedRuns.le (h.composed.makes.le hk _))⟩

theorem relates_attempt {x : Attempt α} (h : x.Makes Store.Change) :
    Relates (Run.Linked link base names) (Eval.ofAttempt x : Eval σ α) (Eval.ofAttempt x) :=
  relates_act linked hk (.attempt h)

theorem relates_debug {record : Frame → LogRecord}
    (blind : ∀ f vars, record (f.within vars) = record f) :
    Relates (Run.Linked link base names) (debug host record) (debug host' record) := by
  intro r r' h
  have switch : r'.frame.debug = r.frame.debug := by
    rw [h.frame]
    rfl
  have records : record r'.frame = record r.frame := by
    rw [h.frame, blind]
  have tests : Relates (Run.Linked link base names)
      (Eval.ofAct (truthTest host r.frame.debug)) (Eval.ofAct (truthTest host' r.frame.debug)) :=
    relates_act linked hk (matched_truthTest _)
  obtain ⟨result, ends⟩ := tests h
  rw [Eval.runOn_ofAct, Eval.runOn_ofAct] at result ends
  rw [runOn_debug, runOn_debug, switch, records]
  generalize (truthTest host r.frame.debug).runOn r.world = p at result ends
  generalize (truthTest host' r.frame.debug).runOn r'.world = q at result ends
  obtain ⟨told, w⟩ := p
  obtain ⟨_, w'⟩ := q
  cases result
  cases told with
  | error e => exact ⟨rfl, ends⟩
  | ok b =>
    refine ⟨rfl, ?_⟩
    cases b with
    | false => exact ends
    | true =>
      exact ⟨⟨ends.world.store, ends.world.trace,
        congrArg (Array.push · (record r.frame)) ends.world.log, ends.world.host⟩, ends.le,
        ends.frame, ends.agree⟩

/-! ## Opening and closing -/

theorem relates_report (place : Value) (refusal : Frame.Refusal) :
    Relates (Run.Linked link base names)
      (Eval.ofAttempt (refusal.report place) : Eval σ α) (Eval.ofAttempt (refusal.report place)) := by
  cases refusal with
  | cyclic | tooDeep =>
    exact relates_attempt linked hk
      ((Attempt.makes_newFaultAt _ _ _).bind fun _ => makes_throw _)
  | nothingOpen | unbalanced => exact relates_attempt linked hk (Attempt.makes_fail _ _)

theorem relates_openNode (v : Value) :
    Relates (Run.Linked link base names) (openNode v : Eval σ Unit) (openNode v) := by
  intro r r' h
  have pushes : r'.frame.push v = (r.frame.push v).map (·.within r'.frame.vars) := by
    rw [← Frame.push_within, ← h.frame]
  rcases push : r.frame.push v with refusal | f
  · rw [push] at pushes
    have first : (openNode v).runOn r =
        (Eval.ofAttempt (refusal.report (r.world.store.placeOf v)) : Eval σ Unit).runOn r := by
      simp only [openNode, Work.runOn_bind, Work.runOn_get, push]
    have second : (openNode v).runOn r' =
        (Eval.ofAttempt (refusal.report (r'.world.store.placeOf v)) : Eval τ Unit).runOn r' := by
      simp only [openNode, Work.runOn_bind, Work.runOn_get, pushes, Except.map]
    rw [first, second, ← h.world.store]
    exact relates_report linked hk _ refusal h
  · rw [push] at pushes
    rw [runOn_openNode_of_push push, runOn_openNode_of_push pushes]
    exact ⟨rfl, h.withFrames (Frame.settings_of_push push).1⟩

theorem relates_closeNode (v : Value) :
    Relates (Run.Linked link base names) (closeNode v : Eval σ Unit) (closeNode v) := by
  intro r r' h
  have pops : r'.frame.pop v = ((r.frame.pop v).1, (r.frame.pop v).2.within r'.frame.vars) := by
    rw [← Frame.pop_within, ← h.frame]
  have closes := h.withFrames (r.frame.vars_pop v)
  rcases pop : r.frame.pop v with ⟨refusal | u, f⟩
  · rw [pop] at pops closes
    have first : (closeNode v).runOn r =
        (Eval.ofAttempt (refusal.report (r.world.store.placeOf v)) : Eval σ Unit).runOn
          { r with frame := f } := by
      simp only [closeNode, Work.runOn_bind, Work.runOn_get, pop, Work.runOn_set]
    have second : (closeNode v).runOn r' =
        (Eval.ofAttempt (refusal.report (r'.world.store.placeOf v)) : Eval τ Unit).runOn
          { r' with frame := f.within r'.frame.vars } := by
      simp only [closeNode, Work.runOn_bind, Work.runOn_get, pops, Work.runOn_set]
    rw [first, second, ← h.world.store]
    exact relates_report linked hk _ refusal closes
  · rw [pop] at pops closes
    rw [runOn_closeNode_of_pop pop, runOn_closeNode_of_pop pops]
    exact ⟨rfl, closes⟩

theorem relates_enterNode (v : Value) :
    Relates (Run.Linked link base names) (enterNode host v) (enterNode host' v) := by
  refine (relates_openNode linked hk v).bind fun _ => relates_store.bind fun s => ?_
  exact (relates_debug linked hk fun _ _ => rfl).bind fun _ =>
    (relates_observe _).bind fun _ => relates_pure _

theorem relates_leaveNode (v : Value) (kind : String) (o : Outcome) :
    Relates (Run.Linked link base names) (leaveNode host v kind o) (leaveNode host' v kind o) :=
  (relates_modifyStore fun s => s.le_attachPlace v o).bind fun _ => (relates_observe _).bind fun _ =>
    (relates_debug linked hk fun _ _ => rfl).bind fun _ => relates_closeNode linked hk v

/-! ## The rules -/

/-- A name on which the environments agree is found in both or in none. -/
theorem relates_lookup {name : Value} {text : String} (named : base.text? name = some text)
    (lasting : ∀ t, name = .token t → t.index < base.tokens.size) (known : names text) :
    Relates (Run.Linked link base names)
      (do Eval.ofAct (lookup (← Eval.frame).vars name) : Eval σ Outcome)
      (do Eval.ofAct (lookup (← Eval.frame).vars name)) := by
  intro r r' h
  have first := Store.text?_of_le h.le lasting named
  have second : r'.world.store.text? name = some text := h.world.store ▸ first
  have same : (Eval.ofAct (lookup r'.frame.vars name) : Eval τ Outcome).runOn r' =
      (Eval.ofAct (lookup r.frame.vars name)).runOn r' := by
    rw [Eval.runOn_ofAct, Eval.runOn_ofAct, runOn_lookup second, runOn_lookup second,
      h.agree known]
  rw [Work.runOn_bind_ok (Eval.runOn_frame r), Work.runOn_bind_ok (Eval.runOn_frame r'), same]
  exact relates_act linked hk (matched_lookup _ _) h

variable {eval : Value → Eval σ Outcome} {eval' : Value → Eval τ Outcome}

omit linked hk in
theorem relates_evalArgs {items : List Value}
    (heval : ∀ v ∈ items, Relates (Run.Linked link base names) (eval v) (eval' v)) :
    Relates (Run.Linked link base names) (evalArgs eval items) (evalArgs eval' items) := by
  induction items with
  | nil => exact relates_pure _
  | cons v items ih =>
    obtain ⟨first, rest⟩ := List.forall_mem_cons.1 heval
    refine first.bind fun o => ?_
    split
    · exact relates_pure _
    · refine (ih rest).bind fun walked => ?_
      cases walked with
      | error o => exact relates_pure _
      | ok vs => exact relates_pure _

theorem relates_evalCall {callee : Value} {items : List Value} (stamp : Nat)
    (heval : ∀ v ∈ callee :: items, Relates (Run.Linked link base names) (eval v) (eval' v)) :
    Relates (Run.Linked link base names) (evalCall host eval callee (.tuple items stamp))
      (evalCall host' eval' callee (.tuple items stamp)) := by
  obtain ⟨first, rest⟩ := List.forall_mem_cons.1 heval
  rw [evalCall_tuple, evalCall_tuple]
  refine first.bind fun o => ?_
  split
  · exact relates_pure _
  · refine (relates_evalArgs rest).bind fun walked => ?_
    cases walked with
    | error o => exact relates_pure _
    | ok vs => exact relates_act linked hk (matched_callValue _ _)

theorem relates_onTruth (v : Value) {x y : Eval σ Outcome} {x' y' : Eval τ Outcome}
    (hx : Relates (Run.Linked link base names) x x')
    (hy : Relates (Run.Linked link base names) y y') :
    Relates (Run.Linked link base names) (do
      match ← Eval.ofAct (truthOrFailure host v) with
      | .error e => Eval.ofAct (Act.raised (.fault e))
      | .ok b => if b then x else y) (do
      match ← Eval.ofAct (truthOrFailure host' v) with
      | .error e => Eval.ofAct (Act.raised (.fault e))
      | .ok b => if b then x' else y') := by
  refine (relates_act linked hk (matched_truthOrFailure v)).bind fun tested => ?_
  cases tested with
  | error e => exact relates_act linked hk (Act.matched_raised _)
  | ok b => exact relates_ite hx hy

theorem relates_evalFallback (op : Operator) {lhs rhs : Value}
    (left : Relates (Run.Linked link base names) (eval lhs) (eval' lhs))
    (right : Relates (Run.Linked link base names) (eval rhs) (eval' rhs)) :
    Relates (Run.Linked link base names) (evalFallback host eval op lhs rhs)
      (evalFallback host' eval' op lhs rhs) := by
  refine left.bind fun o => ?_
  split
  · exact relates_pure _
  · exact (relates_debug linked hk fun _ _ => rfl).bind fun _ => right
  · exact relates_pure _
  · exact relates_ite right (relates_pure _)
  · exact relates_onTruth linked hk _ (relates_pure _) right

/-- The rule of a form goes the same way if the operands do, and if the environments agree on the
name that is looked up. -/
theorem relates_evalForm {f : Form} (fit : f.IsFit base)
    (known : ∀ {name text}, f = .reference name → base.text? name = some text → names text)
    (heval : ∀ v ∈ f.operands, Relates (Run.Linked link base names) (eval v) (eval' v)) :
    Relates (Run.Linked link base names) (evalForm host eval f) (evalForm host' eval' f) := by
  cases f with
  | literal v => exact relates_act linked hk (Act.matched_success v)
  | reference name =>
    obtain ⟨⟨text, named, -⟩, lasting⟩ := fit
    exact relates_lookup linked hk named lasting (known rfl named)
  | call callee args =>
    obtain ⟨items, stamp, rfl⟩ := fit
    exact relates_evalCall linked hk stamp heval
  | fallback op lhs rhs =>
    exact relates_evalFallback linked hk op (heval lhs (by simp [Form.operands]))
      (heval rhs (by simp [Form.operands]))
  | ternary condition thenBranch elseBranch =>
    refine (heval condition (by simp [Form.operands])).bind fun o => ?_
    split
    · exact relates_pure _
    · exact relates_onTruth linked hk _ (heval thenBranch (by simp [Form.operands]))
        (heval elseBranch (by simp [Form.operands]))
  | raise exception => exact relates_act linked hk (matched_evalRaise exception)

/-- The evaluation of a tree goes the same way if the environments agree on the names that it
reads. -/
theorem relates_evalNode (budget : Nat) {n : NodeRef} (tree : base.IsTree n)
    (known : ∀ {text}, base.Reads n text → names text) :
    Relates (Run.Linked link base names) (evalNode host budget (.node n))
      (evalNode host' budget (.node n)) := by
  induction budget generalizing n with
  | zero =>
    exact (relates_openNode linked hk _).bind fun _ =>
      relates_attempt linked hk (Attempt.makes_misuse _)
  | succ budget ih =>
    refine (relates_enterNode linked hk _).bind fun kind => Relates.bind ?_ fun o =>
      (relates_leaveNode linked hk _ kind o).bind fun _ => relates_pure _
    have rule : Relates (Run.Linked link base names)
        (evalForm host (evalNode host budget) (base.form n))
        (evalForm host' (evalNode host' budget) (base.form n)) := by
      refine relates_evalForm linked hk tree.whole.fit
        (fun form named => known ⟨n, _, .refl, form, named⟩) fun v operand => ?_
      obtain ⟨m, rfl⟩ := tree.whole.operands v operand
      refine ih (tree.operand operand) fun reads => known ?_
      obtain ⟨k, name, below, form, named⟩ := reads
      exact ⟨k, name, .head operand below, form, named⟩
    intro r r' h
    have first : (evalOpen host (evalNode host budget) (.node n)).runOn r =
        (evalForm host (evalNode host budget) (base.form n)).runOn r := by
      rw [← Store.form_eq_of_le h.le tree.whole.made]
      rfl
    have second : (evalOpen host' (evalNode host' budget) (.node n)).runOn r' =
        (evalForm host' (evalNode host' budget) (base.form n)).runOn r' := by
      rw [← Store.form_eq_of_le h.le tree.whole.made, h.world.store]
      rfl
    rw [first, second]
    exact rule h

end Hosts

end Evals

/-! ## Whole evaluations -/

/-- The requests differ in their environments only, which agree on the names that a tree reads. -/
structure Request.AgreesOn (s : Store) (root : NodeRef) (q q' : Request) : Prop where
  options : q.options = q'.options
  ceiling : q.ceiling = q'.ceiling
  traced : q.traced = q'.traced
  bound {text : String} (reads : s.Reads root text) :
    q.environment.get? text = q'.environment.get? text

theorem Request.AgreesOn.refl (s : Store) (root : NodeRef) (q : Request) : q.AgreesOn s root q :=
  ⟨rfl, rfl, rfl, fun _ => rfl⟩

/-- The same evaluation ends with the same result in two linked hosts, and leaves linked worlds. -/
theorem linked_evaluate {σ τ : Type} {link : σ → τ → Prop} {host : Host σ} {host' : Host τ}
    (linked : host.Linked link host') (hk : host.KeepsTrees) {w : World σ} {w' : World τ}
    (worlds : w.Linked link w') {root : NodeRef} (tree : w.store.IsTree root) {q q' : Request}
    (agrees : q.AgreesOn w.store root q') :
    ((evaluate host q (.node root)).runOn w).1 = ((evaluate host' q' (.node root)).runOn w').1 ∧
      ((evaluate host q (.node root)).runOn w).2.Linked link
        ((evaluate host' q' (.node root)).runOn w').2 := by
  obtain ⟨options, ceiling, traced, bound⟩ := agrees
  have frames : q'.frame = q.frame.within q'.frame.vars := by
    rw [Request.frame, Request.frame, options, ceiling, traced]
    rfl
  have limits : q'.frame.maxDepth = q.frame.maxDepth := by
    rw [frames]
    rfl
  have start : Run.Linked link w.store (w.store.Reads root) ⟨q.frame, w⟩ ⟨q'.frame, w'⟩ :=
    ⟨worlds, le_rfl, frames, bound⟩
  obtain ⟨result, ends⟩ := relates_evalNode linked hk q.frame.maxDepth tree id start
  have second : (evaluate host' q' (.node root)).runOn w' =
      (((evalNode host' q.frame.maxDepth (.node root)).runOn ⟨q'.frame, w'⟩).1,
        ((evalNode host' q.frame.maxDepth (.node root)).runOn ⟨q'.frame, w'⟩).2.world) := by
    rw [← limits]
    rfl
  rw [second]
  exact ⟨result, ends.world⟩

end Fallback
