import Fallback.Proofs.Correspondence
import Fallback.Proofs.Noninterference

/-!
Evaluations of trees of the same shape.

`Correspondence.Trees` says of a correspondence that the nodes which it relates have forms of the
same shape. `Position.Counterpart` is the invariant of two evaluations of such trees: the visits are
to related nodes, in related worlds, with frames in which related nodes are open. Counterparts make
the same moves, so whatever happens in the course of the one happens in the course of the other
(`Counterpart.exists_itinerary`, by induction on the itinerary of the one). In particular a value
that is itself an outcome, a fault or a node has no other effect than the value related to it.
-/
namespace Fallback

open List (Forall₂)
open Relation (ReflTransGen TransGen)

variable {σ α β : Type} {host : Host σ} {C : Correspondence σ} {base base' : Store}

namespace Correspondence

/-- The trees below related nodes have the same shape, and on the way down from two of them the
first node recurs where the second does. -/
structure Trees (C : Correspondence σ) (s t : Store) : Prop where
  forms {n m : NodeRef} (nodes : C.nodes n m) : C.Forms s t (s.form n) (t.form m)
  recurs {n m n' m' : NodeRef} (nodes : C.nodes n m) (nodes' : C.nodes n' m')
    (below : TransGen s.Operand n n') (below' : TransGen t.Operand m m') : n = n' ↔ m = m'

/-- The same thing happens at the same place: related nodes are entered, related callables are
invoked with related arguments, or related nodes are left with related outcomes. -/
inductive Happenings (C : Correspondence σ) : Happening → Happening → Prop
  | enter {n m : NodeRef} (path : List Nat) (nodes : C.nodes n m) :
    C.Happenings (.enter path n) (.enter path m)
  | invoke {v v' : Value} {args args' : List Value} (path : List Nat) (callees : C.values v v')
    (all : Forall₂ C.values args args') :
    C.Happenings (.invoke path v args) (.invoke path v' args')
  | exit {n m : NodeRef} {o o' : Outcome} (path : List Nat) (nodes : C.nodes n m)
    (outcomes : C.Outcomes o o') : C.Happenings (.exit path n o) (.exit path m o')

/-- The visits have come equally far. -/
inductive Stages (C : Correspondence σ) : Stage σ → Stage σ → Prop
  | isOpen {done done' : List (Nat × Outcome)} {r r' : Run σ}
    (slots : done.map Prod.fst = done'.map Prod.fst)
    (all : Forall₂ C.Outcomes (done.map Prod.snd) (done'.map Prod.snd))
    (worlds : C.worlds r.world r'.world) : C.Stages (.isOpen done r) (.isOpen done' r')
  | ended {q q' : Except FaultRef Outcome × Run σ}
    (ends : C.Ends C.Outcomes (q.1, q.2.world) (q'.1, q'.2.world)) :
    C.Stages (.ended q) (.ended q')

theorem Evals.of_ok {R : α → β → Prop} {x : Eval σ α} {y : Eval σ β} {r r' r₁ : Run σ} {a : α}
    (h : C.Evals R x y r r') (run : x.runOn r = (.ok a, r₁)) :
    ∃ b r₁', y.runOn r' = (.ok b, r₁') ∧ R a b ∧ C.worlds r₁.world r₁'.world := by
  rw [Evals, run] at h
  generalize y.runOn r' = q at h
  obtain ⟨result, r₁'⟩ := q
  cases h with
  | ok related worlds => exact ⟨_, r₁', rfl, related, worlds⟩

theorem Evals.of_error {R : α → β → Prop} {x : Eval σ α} {y : Eval σ β} {r r' r₁ : Run σ}
    {e : FaultRef} (h : C.Evals R x y r r') (run : x.runOn r = (.error e, r₁)) :
    ∃ f r₁', y.runOn r' = (.error f, r₁') := by
  rw [Evals, run] at h
  generalize y.runOn r' = q at h
  obtain ⟨result, r₁'⟩ := q
  cases h with
  | error => exact ⟨_, r₁', rfl⟩

/-! ## Entering and leaving -/

section Nodes

variable {f g f' g' : Frame} {v v' : Value} {r r' : Run σ}

/-- Frames that belong together still do when a node has been opened in each. -/
theorem Frames.of_push (frames : C.Frames f g) (push : f.push v = .ok f')
    (push' : g.push v' = .ok g') : C.Frames f' g' := by
  obtain ⟨vars, debug, -⟩ := Frame.settings_of_push push
  obtain ⟨vars', debug', -⟩ := Frame.settings_of_push push'
  obtain ⟨depth, maxDepth, -⟩ := Frame.depth_of_push push
  obtain ⟨depth', maxDepth', -⟩ := Frame.depth_of_push push'
  refine ⟨fun name => ?_, ?_, ?_, ?_⟩
  · rw [vars, vars']
    exact frames.vars name
  · rw [maxDepth, maxDepth', frames.maxDepth]
  · rw [debug, debug', frames.debug]
  · rw [depth, depth', frames.depth]

/-- Frames that belong together open two nodes, or refuse both, if both are open or none is. -/
theorem Frames.push_cases (frames : C.Frames f g)
    (isOpen : v.identity ∈ f.active ↔ v'.identity ∈ g.active) :
    (∃ refusal, f.push v = .error refusal ∧ g.push v' = .error refusal) ∨
      ∃ f' g', f.push v = .ok f' ∧ g.push v' = .ok g' := by
  obtain ⟨there, push⟩ | ⟨away, full, push⟩ | ⟨away, room, push⟩ := f.push_cases v
  · refine .inl ⟨_, push, ?_⟩
    simp [Frame.push, isOpen.1 there]
  · refine .inl ⟨_, push, ?_⟩
    simp only [Frame.push, List.contains_eq_mem, decide_eq_true_eq, mt isOpen.2 away, if_false,
      ← frames.maxDepth, ← frames.depth, if_pos full]
  · refine .inr ⟨_, { g with stack := v'.identity :: g.stack, active := v'.identity :: g.active },
      push, ?_⟩
    simp only [Frame.push, List.contains_eq_mem, decide_eq_true_eq, mt isOpen.2 away, if_false,
      ← frames.maxDepth, ← frames.depth, if_neg (Nat.not_le_of_lt room)]

variable (admits : C.Admits host) (switch : C.Switches host r.frame.debug)
  (worlds : C.worlds r.world r'.world)
include admits switch worlds

/-- Both nodes are entered, or both evaluations are broken off. -/
theorem evals_enterNode (frames : C.Frames r.frame r'.frame)
    (isOpen : v.identity ∈ r.frame.active ↔ v'.identity ∈ r'.frame.active) :
    C.Evals (fun _ _ => True) (enterNode host v) (enterNode host v') r r' := by
  obtain ⟨refusal, refused, refused'⟩ | ⟨f, g, push, push'⟩ := frames.push_cases isOpen
  · rw [Evals, enterNode, enterNode, Work.runOn_bind_error (runOn_openNode_of_refused refused),
      Work.runOn_bind_error (runOn_openNode_of_refused refused')]
    exact .error
  · have opened := frames.of_push push push'
    rw [Evals, enterNode, enterNode, Work.runOn_bind_ok (runOn_openNode_of_push push),
      Work.runOn_bind_ok (runOn_openNode_of_push push'), Work.runOn_bind_ok (Eval.runOn_store _),
      Work.runOn_bind_ok (Eval.runOn_store _)]
    rw [← (Frame.settings_of_push push).2.1] at switch
    have records (record record' : Frame → LogRecord) : C.Evals (fun _ _ => True)
        (debug host record) (debug host record') ⟨f, r.world⟩ ⟨g, r'.world⟩ :=
      @evals_debug _ _ _ ⟨f, r.world⟩ ⟨g, r'.world⟩ admits switch opened.debug worlds record record'
    refine (records _ _).bind fun {_ _ r₁ r₁'} _ worlds => ?_
    obtain ⟨t, observed⟩ := Eval.runOn_observe (fun t => t.enter v) r₁
    obtain ⟨t', observed'⟩ := Eval.runOn_observe (fun t => t.enter v') r₁'
    rw [Evals, Work.runOn_bind_ok observed, Work.runOn_bind_ok observed']
    exact .ok trivial (admits.second (admits.first worlds (.trace t)) (.trace t'))

omit admits switch worlds in
/-- The leaving of a node is noted by what an evaluation does by itself. -/
theorem own_noted (r : Run σ) (v : Value) (o : Outcome) :
    ReflTransGen World.Own r.world (r.noted v o) :=
  (ReflTransGen.single (.place v o)).tail (.trace _)

/-- Both nodes are left, or both evaluations are broken off. -/
theorem evals_leaveNode (frames : r.frame.debug = r'.frame.debug) (push : f.push v = .ok r.frame)
    (push' : g.push v' = .ok r'.frame) (kind kind' : String) (o o' : Outcome) :
    C.Evals (fun _ _ => True) (leaveNode host v kind o) (leaveNode host v' kind' o') r r' := by
  have noted : C.worlds (r.noted v o) (r'.noted v' o') :=
    admits.seconds (admits.firsts worlds (own_noted r v o)) (own_noted r' v' o')
  have records : C.Evals (fun _ _ => True)
      (debug host fun f => .exit (f.depth - 1) kind o.isRaised)
      (debug host fun f => .exit (f.depth - 1) kind' o'.isRaised)
      ⟨r.frame, r.noted v o⟩ ⟨r'.frame, r'.noted v' o'⟩ :=
    @evals_debug _ _ _ ⟨r.frame, r.noted v o⟩ ⟨r'.frame, r'.noted v' o'⟩ admits switch frames
      noted _ _
  rw [Evals, runOn_leaveNode, runOn_leaveNode]
  rcases run : (debug host fun f => .exit (f.depth - 1) kind o.isRaised).runOn
    ⟨r.frame, r.noted v o⟩ with ⟨e | u, r₁⟩
  · obtain ⟨e', r₁', run'⟩ := records.of_error run
    rw [Work.runOn_bind_error run, Work.runOn_bind_error run']
    exact .error
  · obtain ⟨u', r₁', run', -, worlds⟩ := records.of_ok run
    have pop : r₁.frame.pop v = (.ok (), f) := by
      rw [Run.Change.frame_eq ((makes_debug _).of_run run)]
      exact Frame.pop_of_push push
    have pop' : r₁'.frame.pop v' = (.ok (), g) := by
      rw [Run.Change.frame_eq ((makes_debug _).of_run run')]
      exact Frame.pop_of_push push'
    rw [Work.runOn_bind_ok run, Work.runOn_bind_ok run', runOn_closeNode_of_pop pop,
      runOn_closeNode_of_pop pop']
    exact .ok trivial worlds

end Nodes

end Correspondence

namespace Position

open Correspondence

variable {p p' c c' : Position σ} {path : List Nat} {es : List Happening} {st : Stage σ}
  {os os' : List Outcome} {r r' r₁ r₁' : Run σ}

/-! ## Counterparts -/

/-- The visits are to related nodes, in related worlds, with frames that belong together, in which
related nodes are open. -/
structure Counterpart (C : Correspondence σ) (base base' : Store) (p p' : Position σ) : Prop where
  first : p.IsWithin base
  second : p'.IsWithin base'
  budget : p.budget = p'.budget
  nodes : C.nodes p.node p'.node
  worlds : C.worlds p.run.world p'.run.world
  frames : C.Frames p.run.frame p'.run.frame
  path : Forall₂ (fun i j => ∃ n m, i = .node n ∧ j = .node m ∧ C.nodes n m ∧
    TransGen base.Operand n p.node ∧ TransGen base'.Operand m p'.node)
    p.run.frame.stack p'.run.frame.stack

/-- The forms of counterparts have the same shape, also later. -/
theorem Counterpart.forms (counterpart : p.Counterpart C base base' p')
    (trees : C.Trees base base') {s s' : Store} (le : base ≤ s) (le' : base' ≤ s') :
    C.Forms s s' p.form p'.form := by
  rw [counterpart.first.form_eq, counterpart.second.form_eq]
  exact (trees.forms counterpart.nodes).mono le le' counterpart.first.tree.whole.fit
    counterpart.second.tree.whole.fit

/-- A node is open on the one side if its counterpart is on the other. -/
theorem Counterpart.isOpen (counterpart : p.Counterpart C base base' p')
    (trees : C.Trees base base') :
    p.value.identity ∈ p.run.frame.active ↔ p'.value.identity ∈ p'.run.frame.active := by
  rw [counterpart.first.sound.balanced.active_eq, counterpart.second.sound.balanced.active_eq]
  exact mem_stack_iff counterpart.path fun related =>
    trees.recurs related.1 counterpart.nodes related.2.1 related.2.2

section Lockstep

variable (hk : host.KeepsTrees) (admits : C.Admits host) (trees : C.Trees base base')
  (counterpart : p.Counterpart C base base' p') (switch : C.Switches host p.run.frame.debug)
include hk counterpart

/-- While counterparts are open, their frames belong together. -/
theorem Counterpart.frames_of_progress (progress : p.Progress host os r)
    (progress' : p'.Progress host os' r') : C.Frames r.frame r'.frame :=
  counterpart.frames.of_push (progress.push_eq counterpart.first.sound hk).1
    (progress'.push_eq counterpart.second.sound hk).1

include admits trees

/-- The rules of counterparts that have come equally far make invocations that are related. -/
theorem Counterpart.invocations (progress : p.Progress host os r)
    (progress' : p'.Progress host os' r') (all : Forall₂ C.Outcomes os os')
    (worlds : C.worlds r.world r'.world) (path : List Nat) :
    Forall₂ C.Happenings (p.form.invocations r.world.store path os)
      (p'.form.invocations r'.world.store path os') := by
  obtain ⟨-, le⟩ := progress.push_eq counterpart.first.sound hk
  obtain ⟨-, le'⟩ := progress'.push_eq counterpart.second.sound hk
  have forms := counterpart.forms trees (counterpart.first.le.trans le)
    (counterpart.second.le.trans le')
  have calls := rel_invocation? admits worlds forms progress.known all
  rw [Form.invocations, Form.invocations]
  generalize p.form.invocation? r.world.store os = call at calls
  generalize p'.form.invocation? r'.world.store os' = call' at calls
  cases calls with
  | none => exact .nil
  | some related => exact .cons (.invoke path related.1 related.2) .nil

include switch

/-- The rules of counterparts that have come equally far make the same move. -/
theorem Counterpart.evals_next (progress : p.Progress host os r)
    (progress' : p'.Progress host os' r') (all : Forall₂ C.Outcomes os os')
    (worlds : C.worlds r.world r'.world) :
    C.Evals C.Moves (p.form.next host os) (p'.form.next host os') r r' := by
  obtain ⟨push, le⟩ := progress.push_eq counterpart.first.sound hk
  obtain ⟨-, le'⟩ := progress'.push_eq counterpart.second.sound hk
  have forms := counterpart.forms trees (counterpart.first.le.trans le)
    (counterpart.second.le.trans le')
  rw [← (Frame.settings_of_push push).2.1] at switch
  exact Correspondence.evals_next admits switch
    (counterpart.frames_of_progress hk progress progress') worlds forms progress.known all

/-- Where the one rule visits an operand, the other visits one, too, and the visits are
counterparts. -/
theorem Counterpart.visit (progress : p.Progress host os r) (progress' : p'.Progress host os' r')
    (all : Forall₂ C.Outcomes os os') (worlds : C.worlds r.world r'.world)
    (budget : c.budget + 1 = p.budget) {i : Nat}
    (decided : (p.form.next host os).runOn r = (.ok (.visit i c.value), c.run)) :
    ∃ c' : Position σ, c'.budget + 1 = p'.budget ∧
      (p'.form.next host os').runOn r' = (.ok (.visit i c'.value), c'.run) ∧
      c.Counterpart C base base' c' := by
  have first := counterpart.first
  have second := counterpart.second
  have moves := counterpart.evals_next hk admits trees switch progress progress' all worlds
  obtain ⟨_, _, decided', move, worlds'⟩ := moves.of_ok decided
  obtain ⟨_, _, _, same, rfl, nodes⟩ | - | - := move
  cases same
  have child : p.Child host i c := ⟨budget, os, r, progress, decided⟩
  obtain ⟨c', same', child', sound', rfl, -⟩ := progress'.child second.sound hk decided'
  cases same'
  obtain ⟨push, le⟩ := progress.push_eq first.sound hk
  obtain ⟨push', le'⟩ := progress'.push_eq second.sound hk
  have changes := (p.form.makes_next os).of_run decided
  have changes' := (p'.form.makes_next os').of_run decided'
  have operand : base.Operand p.node c.node := by
    rw [Store.Operand, ← first.form_eq]
    exact Form.next_visit_mem decided
  have operand' : base'.Operand p'.node c'.node := by
    rw [Store.Operand, ← second.form_eq]
    exact Form.next_visit_mem decided'
  -- with the operands the paths from the open nodes grow by one step, which is what tells that the
  -- one operand is open already where the other is
  refine ⟨c', child'.budget, decided',
    ⟨child.isSound first.sound hk, ?_, first.tree.operand operand⟩,
    ⟨sound', ?_, second.tree.operand operand'⟩, ?_, nodes, worlds', ?_, ?_⟩
  · exact first.le.trans (le.trans (Run.Change.le_of_reflTransGen changes hk))
  · exact second.le.trans (le'.trans (Run.Change.le_of_reflTransGen changes' hk))
  · exact Nat.succ.inj (budget.trans (counterpart.budget.trans child'.budget.symm))
  · rw [Run.Change.frame_eq changes, Run.Change.frame_eq changes']
    exact counterpart.frames_of_progress hk progress progress'
  · rw [Run.Change.frame_eq changes, Run.Change.frame_eq changes', Frame.stack_of_push push,
      Frame.stack_of_push push']
    refine .cons ⟨_, _, rfl, rfl, counterpart.nodes, .single operand, .single operand'⟩ ?_
    refine counterpart.path.imp fun _ _ above => ?_
    obtain ⟨n, m, rfl, rfl, nodes', path, path'⟩ := above
    exact ⟨n, m, rfl, rfl, nodes', path.tail operand, path'.tail operand'⟩

/-- Where the one rule ends with an outcome, the other ends with a related one, and both nodes are
left, or both evaluations are broken off. -/
theorem Counterpart.settles (progress : p.Progress host os r)
    (progress' : p'.Progress host os' r') (all : Forall₂ C.Outcomes os os')
    (worlds : C.worlds r.world r'.world) {o : Outcome}
    (decided : (p.form.next host os).runOn r = (.ok (.keep o), r₁) ∨
      (p.form.next host os).runOn r = (.ok (.finish o), r₁)) :
    ∃ o' r₁', ((p'.form.next host os').runOn r' = (.ok (.keep o'), r₁') ∨
        (p'.form.next host os').runOn r' = (.ok (.finish o'), r₁')) ∧
      C.Outcomes o o' ∧
      C.Evals (fun _ _ => True) (leaveNode host p.value p.kind o)
        (leaveNode host p'.value p'.kind o') r₁ r₁' := by
  have moves := counterpart.evals_next hk admits trees switch progress progress' all worlds
  obtain ⟨o', r₁', decided', outcomes, worlds'⟩ :
      ∃ o' r₁', ((p'.form.next host os').runOn r' = (.ok (.keep o'), r₁') ∨
          (p'.form.next host os').runOn r' = (.ok (.finish o'), r₁')) ∧
        C.Outcomes o o' ∧ C.worlds r₁.world r₁'.world := by
    obtain kept | finished := decided
    · obtain ⟨_, r₁', decided', move, worlds'⟩ := moves.of_ok kept
      cases move with
      | keep outcomes => exact ⟨_, r₁', .inl decided', outcomes, worlds'⟩
    · obtain ⟨_, r₁', decided', move, worlds'⟩ := moves.of_ok finished
      cases move with
      | finish outcomes => exact ⟨_, r₁', .inr decided', outcomes, worlds'⟩
  have push : p.run.frame.push p.value = .ok r₁.frame :=
    Settles.push_eq ⟨os, r, progress, decided⟩ counterpart.first.sound hk
  have push' : p'.run.frame.push p'.value = .ok r₁'.frame :=
    Settles.push_eq ⟨os', r', progress', decided'⟩ counterpart.second.sound hk
  have frames := counterpart.frames.of_push push push'
  rw [← (Frame.settings_of_push push).2.1] at switch
  exact ⟨o', r₁', decided', outcomes,
    evals_leaveNode admits switch worlds' frames.debug push push' _ _ o o'⟩

end Lockstep

/-- The visit comes equally far as a stage of another, and the same happens up to there. -/
def Follows (C : Correspondence σ) (host : Host σ) (p' : Position σ) (path : List Nat)
    (es : List Happening) (st : Stage σ) : Prop :=
  ∃ es' st', p'.Itinerary host path es' st' ∧ Forall₂ C.Happenings es es' ∧ C.Stages st st'

section Steps

variable {done : List (Nat × Outcome)} (hk : host.KeepsTrees)
  (counterpart : p.Counterpart C base base' p')
  (before : p.Itinerary host path es (.isOpen done r))
  (follows : Follows C host p' path es (.isOpen done r))
include hk counterpart before follows

/-- Where a node is open, its counterpart is, too, after operands in the same slots. -/
theorem Counterpart.isOpen_of_follows :
    ∃ es' done' r', p'.Itinerary host path es' (.isOpen done' r') ∧
      p.Progress host (done.map Prod.snd) r ∧ p'.Progress host (done'.map Prod.snd) r' ∧
      Forall₂ C.Happenings es es' ∧ done.map Prod.fst = done'.map Prod.fst ∧
      Forall₂ C.Outcomes (done.map Prod.snd) (done'.map Prod.snd) ∧
      C.worlds r.world r'.world := by
  obtain ⟨es', _, before', happened, stages⟩ := follows
  cases stages with
  | isOpen slots all worlds =>
    exact ⟨es', _, _, before', before.comesTo counterpart.first.sound hk,
      before'.comesTo counterpart.second.sound hk, happened, slots, all, worlds⟩

variable (admits : C.Admits host) (trees : C.Trees base base')
  (switch : C.Switches host p.run.frame.debug)
include admits trees switch

/-- The visit of an operand is followed if its counterpart follows it. -/
theorem Counterpart.follows_visit {fs : List Happening} {i : Nat}
    {result : Except FaultRef Outcome} {r₂ : Run σ} (budget : c.budget + 1 = p.budget)
    (decided : (p.form.next host (done.map Prod.snd)).runOn r = (.ok (.visit i c.value), c.run))
    (below : ∀ {c' : Position σ}, c.Counterpart C base base' c' →
      C.Switches host c.run.frame.debug →
      Follows C host c' (path ++ [i]) fs (.ended (result, r₂))) :
    Follows C host p' path (es ++ fs)
      (match result with
        | .ok o => .isOpen (done ++ [(i, o)]) r₂
        | .error e => .ended (.error e, r₂)) := by
  obtain ⟨es', done', r', before', progress, progress', happened, slots, all, worlds⟩ :=
    counterpart.isOpen_of_follows hk before follows
  obtain ⟨c', budget', decided', visited⟩ :=
    counterpart.visit hk admits trees switch progress progress' all worlds budget decided
  rw [← (progress.isChild budget decided).debug_eq counterpart.first.sound hk] at switch
  obtain ⟨fs', _, visit', happened', stages⟩ := below visited switch
  obtain - | @⟨_, ⟨result', r₂'⟩, ends⟩ := stages
  cases ends with
  | error =>
    exact ⟨_, _, .brokenBelow before' budget' decided' visit', List.rel_append happened happened',
      .ended .error⟩
  | ok outcomes worlds' =>
    refine ⟨_, _, .visited before' budget' decided' visit', List.rel_append happened happened',
      .isOpen ?_ ?_ worlds'⟩
    · rw [List.map_append, List.map_append, slots]
      rfl
    · rw [List.map_append, List.map_append]
      exact List.rel_append all (.cons outcomes .nil)

/-- A rule that is broken off is followed. -/
theorem Counterpart.follows_broken {e : FaultRef} {r₁ : Run σ}
    (decided : (p.form.next host (done.map Prod.snd)).runOn r = (.error e, r₁)) :
    Follows C host p' path
      (es ++ p.form.invocations r.world.store path (done.map Prod.snd))
      (.ended (.error e, r₁)) := by
  obtain ⟨es', done', r', before', progress, progress', happened, -, all, worlds⟩ :=
    counterpart.isOpen_of_follows hk before follows
  have moves := counterpart.evals_next hk admits trees switch progress progress' all worlds
  obtain ⟨e', r₁', decided'⟩ := moves.of_error decided
  have invoked := counterpart.invocations hk admits trees progress progress' all worlds path
  exact ⟨_, _, .broken before' decided', List.rel_append happened invoked, .ended .error⟩

/-- The leaving of a node is followed, whether or not it is broken off. -/
theorem Counterpart.follows_leaving {o : Outcome} {result : Except FaultRef Unit} {r₂ : Run σ}
    (decided : (p.form.next host (done.map Prod.snd)).runOn r = (.ok (.keep o), r₁) ∨
      (p.form.next host (done.map Prod.snd)).runOn r = (.ok (.finish o), r₁))
    (leave : (leaveNode host p.value p.kind o).runOn r₁ = (result, r₂)) :
    Follows C host p' path
      (es ++ (p.form.invocations r.world.store path (done.map Prod.snd) ++ [.exit path p.node o]))
      (.ended (result.map fun _ => o, r₂)) := by
  obtain ⟨es', done', r', before', progress, progress', happened, -, all, worlds⟩ :=
    counterpart.isOpen_of_follows hk before follows
  obtain ⟨o', r₁', decided', outcomes, leaves⟩ :=
    counterpart.settles hk admits trees switch progress progress' all worlds decided
  have invoked := counterpart.invocations hk admits trees progress progress' all worlds path
  have exits := List.rel_append happened
    (List.rel_append invoked (.cons (.exit path counterpart.nodes outcomes) .nil))
  cases result with
  | error e =>
    obtain ⟨e', r₂', leave'⟩ := leaves.of_error leave
    exact ⟨_, _, .notLeft before' decided' leave', exits, .ended .error⟩
  | ok u =>
    obtain ⟨_, r₂', leave', -, worlds'⟩ := leaves.of_ok leave
    exact ⟨_, _, .left before' decided' leave', exits, .ended (.ok outcomes worlds')⟩

end Steps

/-- Whatever happens in the course of a visit happens in the course of its counterpart. -/
theorem Counterpart.follows (hk : host.KeepsTrees) (admits : C.Admits host)
    (trees : C.Trees base base') (h : p.Itinerary host path es st)
    (counterpart : p.Counterpart C base base' p') (switch : C.Switches host p.run.frame.debug) :
    Follows C host p' path es st := by
  induction h generalizing p' with
  | @refused p path e r enter =>
    have enters := evals_enterNode admits switch counterpart.worlds counterpart.frames
      (counterpart.isOpen trees)
    obtain ⟨e', r', enter'⟩ := enters.of_error enter
    exact ⟨[], _, .refused enter', .nil, .ended .error⟩
  | @entered p path r budget enter =>
    have enters := evals_enterNode admits switch counterpart.worlds counterpart.frames
      (counterpart.isOpen trees)
    obtain ⟨kind, r', enter', -, worlds⟩ := enters.of_ok enter
    obtain rfl : kind = p'.kind := (enterNode_ok enter').1
    exact ⟨_, _, .entered (counterpart.budget ▸ budget) enter',
      .cons (.enter path counterpart.nodes) .nil, .isOpen rfl .nil worlds⟩
  | visited before budget decided visit ihBefore ihVisit
  | brokenBelow before budget decided visit ihBefore ihVisit =>
    exact counterpart.follows_visit hk before (ihBefore counterpart switch) admits trees switch
      budget decided ihVisit
  | broken before decided ih =>
    exact counterpart.follows_broken hk before (ih counterpart switch) admits trees switch decided
  | left before decided leave ih | notLeft before decided leave ih =>
    exact counterpart.follows_leaving hk before (ih counterpart switch) admits trees switch decided
      leave

/-- Evaluations of related nodes with related bindings under the same options start with
counterparts. -/
theorem counterpart_start {q q' : Request} {w w' : World σ} {root root' : NodeRef}
    (options : q'.options = q.options) (ceiling : q'.ceiling = q.ceiling)
    (bound : ∀ name, Option.Rel C.values (q.environment.get? name) (q'.environment.get? name))
    (worlds : C.worlds w w') (nodes : C.nodes root root') (tree : w.store.IsTree root)
    (tree' : w'.store.IsTree root') :
    (start q root w).Counterpart C w.store w'.store (start q' root' w') := by
  have limit : q.frame.maxDepth = q'.frame.maxDepth := by
    rw [Request.frame, Request.frame, options, ceiling]
    rfl
  exact ⟨⟨isSound_start q tree, le_rfl, tree⟩, ⟨isSound_start q' tree', le_rfl, tree'⟩, limit,
    nodes, worlds, ⟨bound, limit, congrArg Options.debugTrace options.symm, rfl⟩, .nil⟩

end Position

/-- Two evaluations of trees of the same shape, with related literals, with related bindings and
under the same options, enter related nodes and invoke related callables in the same order, and both
succeed with related values, both raise something, or both are broken off. -/
theorem runOn_evaluate_corresponds (hk : host.KeepsTrees) (admits : C.Admits host)
    {q q' : Request} (options : q'.options = q.options) (ceiling : q'.ceiling = q.ceiling)
    (bound : ∀ name, Option.Rel C.values (q.environment.get? name) (q'.environment.get? name))
    (switch : C.Switches host q.options.debugTrace) {w w' : World σ} (worlds : C.worlds w w')
    {root root' : NodeRef} (nodes : C.nodes root root') (tree : w.store.IsTree root)
    (tree' : w'.store.IsTree root') (trees : C.Trees w.store w'.store) :
    ∃ es es', (Position.start q root w).Itinerary host [] es
        (.ended ((Position.start q root w).ending host)) ∧
      (Position.start q' root' w').Itinerary host [] es'
        (.ended ((Position.start q' root' w').ending host)) ∧
      Forall₂ C.Happenings es es' ∧
      C.Ends C.Outcomes ((evaluate host q (.node root)).runOn w)
        ((evaluate host q' (.node root')).runOn w') := by
  have counterpart := Position.counterpart_start options ceiling bound worlds nodes tree tree'
  have sound := Position.isSound_start q tree
  have sound' := Position.isSound_start q' tree'
  obtain ⟨es, itinerary⟩ := Position.exists_itinerary sound hk []
  obtain ⟨es', _, itinerary', happened, stages⟩ :=
    counterpart.follows hk admits trees itinerary switch
  cases stages with
  | @ended _ p ends =>
    have ending : (Position.start q' root' w').ending host = p := itinerary'.comesTo sound' hk
    subst ending
    exact ⟨es, es', itinerary, itinerary', happened, ends⟩

/-! ## An outcome in the place of a number -/

/-- The host whose routines give the first of their arguments. -/
def relayingHost : Host Unit :=
  ⟨fun _ args w => (.ok (args.headD .null), w), fun _ w => (.ok true, w)⟩

/-- An outcome stands for a number, and one routine for another. -/
inductive StandsFor : Value → Value → Prop
  | null : StandsFor .null .null
  | marker : StandsFor (.outcome ⟨0⟩) (.int 1 Store.noStamp)
  | routine : StandsFor (.routine ⟨0⟩) (.routine ⟨1⟩)

/-- The first fault has been made and has no way of its own to be copied. -/
def Store.IsPlain (s : Store) : Prop :=
  0 < s.faults.size ∧ Environment.get? (s.fault ⟨0⟩).extras copyName = none

theorem Store.IsPlain.ownWay? {s : Store} (plain : s.IsPlain) : s.ownWay? ⟨0⟩ = none := by
  rw [Store.ownWay?, attribute?_copyName, plain.2]
  exact ite_self _

/-- What an evaluation does by itself gives no fault a way of its own. -/
theorem World.Own.isPlain {w w' : World σ} (own : w.Own w') (plain : w.store.IsPlain) :
    w'.store.IsPlain := by
  obtain ⟨made, none⟩ := plain
  cases own with
  | stamp | outcome | trace | log => exact ⟨made, none⟩
  | fault e =>
    refine ⟨lt_of_lt_of_eq (Nat.lt_succ_of_lt made) (Array.size_push _).symm, ?_⟩
    rw [Store.fault_addFault_of_lt e made, none]
  | place v o =>
    refine ⟨((Store.le_attachPlace w.store v o).kind made).1, ?_⟩
    rw [Store.extras_attachPlace w.store v o made, none]

/-- The correspondence of values that stand for each other, in worlds in which the first fault has
no way of its own. -/
def standIns : Correspondence Unit where
  values := StandsFor
  worlds w w' := w.store.IsPlain ∧ w'.store.IsPlain
  nodes n m := n = m ∧ n.index < 5

theorem admits_standIns : standIns.Admits relayingHost := by
  refine ⟨?_, ?_, ?_, ?_, ?_, ?_⟩
  · rintro v v' (_ | _ | _) <;> rfl
  · rintro v v' (_ | _ | _) <;> rfl
  · rintro v v' w w' (_ | _ | _) worlds
    all_goals exact .ok rfl worlds
  · rintro v v' args args' w w' (_ | _ | _) callable all worlds
    · cases callable
    · cases callable
    · refine .ok ?_ ?_
      · cases all with
        | nil => exact .null
        | cons first _ => exact first
      · dsimp only
        constructor <;> split <;> first | exact worlds.1 | exact worlds.2
  · rintro w₀ w w' ⟨plain, plain'⟩ own
    exact ⟨own.isPlain plain, plain'⟩
  · rintro w w₀ w' ⟨plain, plain'⟩ own
    exact ⟨plain, own.isPlain plain'⟩

/-- A tree that calls a literal with a name, once a fault that it raises has been dropped. -/
def relayStore (callee : Value) : Store :=
  { Store.empty with
    faults := #[⟨.recoverable, .tuple [] Store.noStamp, .null, .null, []⟩]
    outcomes := #[⟨.success .null, []⟩]
    nodes := #[
      ⟨.literal callee, .null, []⟩,
      ⟨.reference (.str "x" Store.noStamp), .null, []⟩,
      ⟨.call (.node ⟨0⟩) (.tuple [.node ⟨1⟩] Store.noStamp), .null, []⟩,
      ⟨.raise (.fault ⟨0⟩), .null, []⟩,
      ⟨.fallback .onFault (.node ⟨3⟩) (.node ⟨2⟩), .null, []⟩] }

/-- The world with this store. -/
def relayWorld (callee : Value) : World Unit :=
  ⟨relayStore callee, .empty, #[], ()⟩

theorem isTree_relayStore (callee : Value) : (relayStore callee).IsTree ⟨4⟩ := by
  have made {i : Nat} (h : i < 5) : i < (relayStore callee).nodes.size := h
  have literal : (relayStore callee).IsTree ⟨0⟩ :=
    .of_trees [] (made (by decide)) trivial rfl nofun
  have reference : (relayStore callee).IsTree ⟨1⟩ :=
    .of_trees [] (made (by decide)) ⟨⟨"x", rfl, by decide⟩, nofun⟩ rfl nofun
  have call : (relayStore callee).IsTree ⟨2⟩ :=
    .of_trees [⟨0⟩, ⟨1⟩] (made (by decide)) ⟨_, _, rfl⟩ rfl (by simp [literal, reference])
  have raising : (relayStore callee).IsTree ⟨3⟩ :=
    .of_trees [] (made (by decide)) ⟨_, rfl, Nat.zero_lt_one, rfl⟩ rfl nofun
  exact .of_trees [⟨3⟩, ⟨2⟩] (made (by decide)) trivial rfl (by simp [raising, call])

/-- A tree of the same shape in which a number and another routine stand in the place of an outcome
and a routine comes to the same. -/
theorem runOn_evaluate_corresponds_of_marker :
    let q : Request := { Request.standard with environment := [("x", .outcome ⟨0⟩)] }
    let q' : Request := { Request.standard with environment := [("x", .int 1 Store.noStamp)] }
    let w := relayWorld (.routine ⟨0⟩)
    let w' := relayWorld (.routine ⟨1⟩)
    relayingHost.KeepsTrees ∧ standIns.Admits relayingHost ∧ q'.options = q.options ∧
    q'.ceiling = q.ceiling ∧
    (∀ name, Option.Rel standIns.values (q.environment.get? name) (q'.environment.get? name)) ∧
    standIns.Switches relayingHost q.options.debugTrace ∧ standIns.worlds w w' ∧
    standIns.nodes ⟨4⟩ ⟨4⟩ ∧ w.store.IsTree ⟨4⟩ ∧ w'.store.IsTree ⟨4⟩ ∧
    standIns.Trees w.store w'.store ∧
    ∃ es es', (Position.start q ⟨4⟩ w).Itinerary relayingHost [] es
        (.ended ((Position.start q ⟨4⟩ w).ending relayingHost)) ∧
      (Position.start q' ⟨4⟩ w').Itinerary relayingHost [] es'
        (.ended ((Position.start q' ⟨4⟩ w').ending relayingHost)) ∧
      Forall₂ standIns.Happenings es es' ∧
      standIns.Ends standIns.Outcomes ((evaluate relayingHost q (.node ⟨4⟩)).runOn w)
        ((evaluate relayingHost q' (.node ⟨4⟩)).runOn w') := by
  intro q q' w w'
  have keeps : relayingHost.KeepsTrees := ⟨fun _ _ _ => le_refl _, fun _ _ => le_refl _⟩
  have options : q'.options = q.options := rfl
  have ceiling : q'.ceiling = q.ceiling := rfl
  have bound (name : String) :
      Option.Rel standIns.values (q.environment.get? name) (q'.environment.get? name) := by
    by_cases same : "x" = name
    · subst same
      exact .some .marker
    · simp [q, q', Environment.get?, same]
  have switch : standIns.Switches relayingHost q.options.debugTrace :=
    standIns.switches_of_answers fun w => ⟨false, rfl⟩
  have worlds : standIns.worlds w w' := ⟨⟨by decide, rfl⟩, by decide, rfl⟩
  have nodes : standIns.nodes ⟨4⟩ ⟨4⟩ := ⟨rfl, by decide⟩
  have twin {n : Nat} (made : n < 5) : Value.Twin standIns.nodes (.node ⟨n⟩) (.node ⟨n⟩) :=
    ⟨⟨n⟩, ⟨n⟩, rfl, rfl, rfl, made⟩
  have trees : standIns.Trees w.store w'.store := by
    refine ⟨?_, ?_⟩
    · rintro ⟨_ | _ | _ | _ | _ | n⟩ m ⟨rfl, made⟩
      · exact .literal .routine
      · exact .reference rfl rfl
      · exact .call (twin (by decide)) (.cons (twin (by decide)) .nil)
      · refine .raise fun w w' plain => ?_
        rw [plain.1.ownWay?, plain.2.ownWay?]
        exact .none
      · exact .fallback .onFault (twin (by decide)) (twin (by decide))
      · exact absurd made (Nat.not_lt.2 (Nat.le_add_left 5 n))
    · rintro n m n' m' ⟨rfl, -⟩ ⟨rfl, -⟩ - -
      exact Iff.rfl
  exact ⟨keeps, admits_standIns, options, ceiling, bound, switch, worlds, nodes,
    isTree_relayStore _, isTree_relayStore _, trees,
    runOn_evaluate_corresponds keeps admits_standIns options ceiling bound switch worlds nodes
      (isTree_relayStore _) (isTree_relayStore _) trees⟩

/-! ## A raising node whose fault has a way of its own -/

/-- A host whose routines end with the first fault. -/
def failingHost : Host Unit :=
  ⟨fun _ _ w => (.error ⟨0⟩, w), fun _ w => (.ok true, w)⟩

/-- Where only the one fault has a way of its own to be copied, and that way is broken off, the one
evaluation is broken off and the other raises something, although there are no literals. -/
theorem not_ends_of_own_way :
    let C : Correspondence Unit := ⟨fun _ _ => False, fun _ _ => True, fun n m => n = ⟨0⟩ ∧ m = ⟨1⟩⟩
    failingHost.KeepsTrees ∧ C.Admits failingHost ∧ ownWayStore.IsTree ⟨0⟩ ∧
    ownWayStore.IsTree ⟨1⟩ ∧ ownWayStore.form ⟨0⟩ = .raise (.fault ⟨0⟩) ∧
    ownWayStore.form ⟨1⟩ = .raise (.fault ⟨1⟩) ∧
    ¬C.Ends C.Outcomes ((evaluate failingHost .standard (.node ⟨0⟩)).runOn ownWayWorld)
      ((evaluate failingHost .standard (.node ⟨1⟩)).runOn ownWayWorld) := by
  intro C
  have admits : C.Admits failingHost :=
    ⟨False.elim, False.elim, fun values => values.elim, fun values => values.elim,
      fun _ _ => trivial, fun _ _ => trivial⟩
  refine ⟨⟨fun _ _ _ => le_refl _, fun _ _ => le_refl _⟩, admits, isTree_ownWayStore.1,
    isTree_ownWayStore.2, rfl, rfl, fun ends => ?_⟩
  have first : ((evaluate failingHost .standard (.node ⟨0⟩)).runOn ownWayWorld).1 =
    .error ⟨0⟩ := rfl
  have second : ((evaluate failingHost .standard (.node ⟨1⟩)).runOn ownWayWorld).1 =
    .ok ⟨⟨0⟩, .raised (.fault ⟨2⟩)⟩ := rfl
  generalize (evaluate failingHost .standard (.node ⟨0⟩)).runOn ownWayWorld = p at ends first
  generalize (evaluate failingHost .standard (.node ⟨1⟩)).runOn ownWayWorld = p' at ends second
  cases ends with
  | ok => cases first
  | error => cases second

end Fallback
