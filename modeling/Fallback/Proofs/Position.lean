import Fallback.Proofs.Rule

/-!
Positions of an evaluation.

A position is one visit to a node: the node, the state in which the visit begins, and the number of
nodes that may still be opened inside each other. `Position.Progress` says how far the rule of the
node has come, and `Position.Child` which visits it makes on the way, each a position again. So the
course of an evaluation is a tree of positions with the start as its root, and
`Position.ending_eq_ok_iff` and `Position.ending_eq_error_iff` say what a position ends with in
terms of its rule and of its children. `Position.IsSound` is the invariant: the node is a tree, the
frame is balanced, and its depth and the budget make up the limit.
-/
namespace Fallback

open Relation (ReflTransGen)

variable {σ : Type} {host : Host σ}

/-! ## Debug records -/

/-- Only the truth test of the switch can break off the writing of a debug record. -/
theorem runOn_debug (record : Frame → LogRecord) (r : Run σ) :
    (debug host record).runOn r =
      match (truthTest host r.frame.debug).runOn r.world with
      | (.ok b, w) =>
        (.ok (),
          { r with world := if b then { w with log := w.log.push (record r.frame) } else w })
      | (.error e, w) => (.error e, { r with world := w }) := by
  rw [debug, Work.runOn_bind_ok (Eval.runOn_frame r), Work.runOn_bind, Eval.runOn_ofAct]
  rcases (truthTest host r.frame.debug).runOn r.world with ⟨e | b, w⟩
  · rfl
  · cases b <;> rfl

/-- The truth of the value can always be told, and telling it changes nothing. A switch that is no
host object is like that. -/
def Host.Answers (host : Host σ) (v : Value) : Prop :=
  ∀ w, ∃ b, (truthTest host v).runOn w = (.ok b, w)

/-- The value is an object of the host. -/
def Value.isHosted : Value → Bool
  | .object _ => true
  | _ => false

/-- The truth of anything but an object is known without the host. -/
theorem answers_of_isHosted_eq_false {v : Value} (h : v.isHosted = false) : host.Answers v := by
  intro w
  refine ⟨w.store.truth v, ?_⟩
  unfold truthTest
  split
  · cases h
  · rfl

/-- With such a switch a debug record is all that is written. -/
theorem Host.Answers.runOn_debug {r : Run σ} (h : host.Answers r.frame.debug)
    (record : Frame → LogRecord) :
    ∃ log, (debug host record).runOn r =
      (.ok (), { r with world := { r.world with log } }) := by
  obtain ⟨b, tested⟩ := h r.world
  rw [Fallback.runOn_debug, tested]
  cases b with
  | true => exact ⟨_, rfl⟩
  | false => exact ⟨_, rfl⟩

theorem debug_eq_error_iff {record : Frame → LogRecord} {r r' : Run σ} {e : FaultRef} :
    (debug host record).runOn r = (.error e, r') ↔
      (truthTest host r.frame.debug).runOn r.world = (.error e, r'.world) ∧
        r'.frame = r.frame := by
  obtain ⟨frame', world'⟩ := r'
  rw [runOn_debug]
  rcases (truthTest host r.frame.debug).runOn r.world with ⟨e' | b, w⟩
  · constructor
    · intro h
      cases h
      exact ⟨rfl, rfl⟩
    · rintro ⟨h, rfl⟩
      cases h
      rfl
  · constructor
    · intro h
      cases h
    · rintro ⟨h, -⟩
      cases h

section Nodes

variable {v : Value} {r r' : Run σ}

/-! ## Entering and leaving -/

theorem runOn_openNode_of_push {f : Frame} (h : r.frame.push v = .ok f) :
    (openNode v).runOn r = (.ok (), { r with frame := f }) := by
  simp only [openNode, Work.runOn_bind, Work.runOn_get, h, Work.runOn_set]

theorem runOn_closeNode_of_pop {f : Frame} (h : r.frame.pop v = (.ok (), f)) :
    (closeNode v).runOn r = (.ok (), { r with frame := f }) := by
  simp only [closeNode, Work.runOn_bind, Work.runOn_get, h, Work.runOn_set, Work.runOn_pure]

/-- A value that could be closed has left the frame, and nothing else has happened. -/
theorem closeNode_ok (h : (closeNode v).runOn r = (.ok (), r')) :
    r.frame.pop v = (.ok (), r'.frame) ∧ r'.world = r.world := by
  rcases pop : r.frame.pop v with ⟨refusal | u, f⟩
  · simp only [closeNode, Work.runOn_bind, Work.runOn_get, pop, Work.runOn_set] at h
    cases refusal <;> cases h
  · rw [runOn_closeNode_of_pop pop] at h
    cases h
    exact ⟨rfl, rfl⟩

theorem Frame.debug_of_pop {f g : Frame} {result : Except Frame.Refusal Unit}
    (h : f.pop v = (result, g)) : g.debug = f.debug := by
  unfold Frame.pop at h
  dsimp only at h
  split at h
  · cases h
    rfl
  · split at h
    · cases h
      rfl
    · cases h
      rfl

/-- A frame refuses only what is open already or what is beyond the limit. -/
theorem Frame.refusal_of_push {f : Frame} {refusal : Frame.Refusal}
    (h : f.push v = .error refusal) : refusal = .cyclic ∨ refusal = .tooDeep f.maxDepth := by
  unfold Frame.push at h
  dsimp only at h
  split at h
  · cases h
    exact .inl rfl
  · split at h
    · cases h
      exact .inr rfl
    · cases h

/-- What is refused breaks off with the report of a broken tree. -/
theorem runOn_openNode_of_refused {refusal : Frame.Refusal} (h : r.frame.push v = .error refusal) :
    (openNode v).runOn r =
      (Eval.ofAttempt (Attempt.malformed (r.world.store.placeOf v) refusal.message) :
        Eval σ Unit).runOn r := by
  have run : (openNode v).runOn r =
      (Eval.ofAttempt (refusal.report (r.world.store.placeOf v)) : Eval σ Unit).runOn r := by
    simp only [openNode, Work.runOn_bind, Work.runOn_get, h]
  obtain rfl | rfl := Frame.refusal_of_push h
  · exact run
  · exact run

theorem openNode_eq_error {e : FaultRef} (h : (openNode v).runOn r = (.error e, r')) :
    ∃ refusal, r.frame.push v = .error refusal ∧
      (Eval.ofAttempt (Attempt.malformed (r.world.store.placeOf v) refusal.message) :
        Eval σ Unit).runOn r = (.error e, r') := by
  rcases push : r.frame.push v with refusal | f
  · exact ⟨refusal, rfl, runOn_openNode_of_refused push ▸ h⟩
  · rw [runOn_openNode_of_push push] at h
    cases h

theorem Frame.depth_of_push {f g : Frame} (h : f.push v = .ok g) :
    g.depth = f.depth + 1 ∧ g.maxDepth = f.maxDepth ∧ f.depth < f.maxDepth := by
  unfold Frame.push at h
  dsimp only at h
  split at h
  · cases h
  · split at h
    · cases h
    · next room =>
      cases h
      exact ⟨rfl, rfl, Nat.lt_of_not_le room⟩

theorem Frame.settings_of_push {f g : Frame} (h : f.push v = .ok g) :
    g.vars = f.vars ∧ g.debug = f.debug ∧ g.traced = f.traced := by
  unfold Frame.push at h
  dsimp only at h
  split at h
  · cases h
  · split at h
    · cases h
    · cases h
      exact ⟨rfl, rfl, rfl⟩

theorem Frame.stack_of_push {f g : Frame} (h : f.push v = .ok g) :
    g.stack = v.identity :: f.stack := by
  unfold Frame.push at h
  dsimp only at h
  split at h
  · cases h
  · split at h
    · cases h
    · cases h
      rfl

/-- What the entering and leaving of a node does besides: debug records and observations. -/
theorem Eval.runOn_observe (f : Trace → Trace) (r : Run σ) :
    ∃ t, (Eval.observe f : Eval σ Unit).runOn r =
      (.ok (), { r with world := { r.world with trace := t } }) := by
  simp only [Eval.observe, Work.runOn_modify]
  split
  · exact ⟨_, rfl⟩
  · exact ⟨_, rfl⟩

theorem Run.Change.le {r r' : Run σ} (h : r.Change host r') (hk : host.KeepsTrees) :
    r.world.store ≤ r'.world.store := by
  cases h with
  | world h => exact h.le hk
  | log record => exact le_refl _

theorem Run.Change.le_of_reflTransGen {r r' : Run σ} (h : ReflTransGen (Run.Change host) r r')
    (hk : host.KeepsTrees) : r.world.store ≤ r'.world.store := by
  induction h with
  | refl => exact le_refl _
  | tail _ step ih => exact le_trans ih (step.le hk)

/-- Attaching the place of a node changes nothing that lasts. -/
theorem Store.le_attachPlace (s : Store) (v : Value) (o : Outcome) : s ≤ s.attachPlace v o := by
  unfold attachPlace
  split
  · dsimp only
    split
    · exact le_locate _ _ _
    · exact le_refl _
  · exact le_refl _

/-- A node that was entered is open, besides what was open before. -/
theorem enterNode_ok {kind : String} (h : (enterNode host v).runOn r = (.ok kind, r')) :
    kind = r.world.store.typeName v ∧ r.frame.push v = .ok r'.frame ∧
      (host.KeepsTrees → r.world.store ≤ r'.world.store) := by
  obtain ⟨u, r₁, opened, h⟩ := Work.runOn_bind_eq_ok.1 h
  rcases push : r.frame.push v with refusal | f
  · rw [runOn_openNode_of_refused push] at opened
    cases opened
  · rw [runOn_openNode_of_push push] at opened
    cases opened
    obtain ⟨s, r₂, hs, h⟩ := Work.runOn_bind_eq_ok.1 h
    cases hs
    obtain ⟨u, r₃, debugged, h⟩ := Work.runOn_bind_eq_ok.1 h
    obtain ⟨u, r₄, observed, h⟩ := Work.runOn_bind_eq_ok.1 h
    cases h
    have changes := (makes_debug _).of_run debugged
    obtain ⟨t, observes⟩ := Eval.runOn_observe (fun t => t.enter v) r₃
    rw [observes] at observed
    cases observed
    have same := Run.Change.frame_eq changes
    have le := Run.Change.le_of_reflTransGen changes
    exact ⟨rfl, by rw [same], le⟩

/-- The world in which the place of a node was attached to what was raised, and the leaving of the
node was noted. -/
def Run.noted (r : Run σ) (v : Value) (o : Outcome) : World σ :=
  { r.world with
    store := r.world.store.attachPlace v o
    trace := if r.frame.traced then r.world.trace.exit v o.toValue else r.world.trace }

/-- Once its place was attached and its leaving was noted, a node only has to be closed. -/
theorem runOn_leaveNode (v : Value) (kind : String) (o : Outcome) (r : Run σ) :
    (leaveNode host v kind o).runOn r = (do
      debug host fun f => .exit (f.depth - 1) kind o.isRaised
      closeNode v : Eval σ Unit).runOn ⟨r.frame, r.noted v o⟩ := by
  obtain ⟨frame, world⟩ := r
  have noted : (Eval.observe fun t => t.exit v o.toValue : Eval σ Unit).runOn
      ⟨frame, { world with store := world.store.attachPlace v o }⟩ =
        (.ok (), ⟨frame, Run.noted ⟨frame, world⟩ v o⟩) := by
    simp only [Eval.observe, Work.runOn_modify, Run.noted]
    cases frame.traced <;> rfl
  rw [leaveNode, Work.runOn_bind_ok (Eval.runOn_modifyStore _ _), Work.runOn_bind_ok noted]

/-- Leaving a node closes it, and what lasts has lasted. -/
theorem leaveNode_ok {kind : String} {o : Outcome}
    (h : (leaveNode host v kind o).runOn r = (.ok (), r')) :
    r.frame.pop v = (.ok (), r'.frame) ∧
      (host.KeepsTrees → r.world.store ≤ r'.world.store) := by
  rw [runOn_leaveNode] at h
  obtain ⟨u, r₁, debugged, closed⟩ := Work.runOn_bind_eq_ok.1 h
  have changes := (makes_debug _).of_run debugged
  obtain ⟨pop, world⟩ := closeNode_ok closed
  rw [Run.Change.frame_eq changes] at pop
  refine ⟨pop, fun hk => ?_⟩
  rw [world]
  exact le_trans (Store.le_attachPlace _ v o) (Run.Change.le_of_reflTransGen changes hk)

/-- A node that is open is left, unless the debug switch cannot tell its truth. -/
theorem leaveNode_eq_error_iff {kind : String} {o : Outcome} {f : Frame} {e : FaultRef}
    (push : f.push v = .ok r.frame) :
    (leaveNode host v kind o).runOn r = (.error e, r') ↔
      (truthTest host r.frame.debug).runOn (r.noted v o) = (.error e, r'.world) ∧
        r'.frame = r.frame := by
  rw [runOn_leaveNode, ← debug_eq_error_iff (r := ⟨r.frame, r.noted v o⟩)]
  constructor
  · intro h
    obtain debugged | ⟨u, r₁, debugged, closed⟩ := Work.runOn_bind_eq_error.1 h
    · exact debugged
    · have pop : r₁.frame.pop v = (.ok (), f) := by
        rw [Run.Change.frame_eq ((makes_debug _).of_run debugged)]
        exact Frame.pop_of_push push
      rw [runOn_closeNode_of_pop pop] at closed
      cases closed
  · intro h
    exact Work.runOn_bind_error h _

/-- A node is entered, unless the frame refuses it or the debug switch cannot tell its truth. -/
theorem enterNode_eq_error_iff {e : FaultRef} :
    (enterNode host v).runOn r = (.error e, r') ↔
      (openNode v).runOn r = (.error e, r') ∨
      ∃ f, r.frame.push v = .ok f ∧
        (truthTest host f.debug).runOn r.world = (.error e, r'.world) ∧ r'.frame = f := by
  constructor
  · intro h
    obtain refused | ⟨u, r₁, opened, h⟩ := Work.runOn_bind_eq_error.1 h
    · exact .inl refused
    · rcases push : r.frame.push v with refusal | f
      · rw [runOn_openNode_of_refused push] at opened
        cases opened
      · rw [runOn_openNode_of_push push] at opened
        cases opened
        rw [Work.runOn_bind_ok (Eval.runOn_store _)] at h
        obtain debugged | ⟨u, r₂, -, h⟩ := Work.runOn_bind_eq_error.1 h
        · exact .inr ⟨f, rfl, debug_eq_error_iff.1 debugged⟩
        · obtain observed | ⟨u, r₃, -, h⟩ := Work.runOn_bind_eq_error.1 h
          · cases observed
          · cases h
  · rintro (refused | ⟨f, push, failed⟩)
    · exact Work.runOn_bind_error refused _
    · rw [enterNode, Work.runOn_bind_ok (runOn_openNode_of_push push),
        Work.runOn_bind_ok (Eval.runOn_store _)]
      exact Work.runOn_bind_error (debug_eq_error_iff.2 failed) _

end Nodes

/-- A request with no names under the standard options. -/
def Request.standard : Request :=
  ⟨.standard, Options.defaultDepth, [], false⟩

/-- A visit to a node in the course of an evaluation. -/
structure Position (σ : Type) where
  budget : Nat
  node : NodeRef
  run : Run σ

namespace Position

variable {σ : Type}

/-- The node as a value. -/
def value (p : Position σ) : Value :=
  .node p.node

/-- The form of the node. -/
def form (p : Position σ) : Form :=
  p.run.world.store.form p.node

/-- The name of the node's kind. -/
def kind (p : Position σ) : String :=
  p.run.world.store.typeName p.value

/-- What the visit ends with, and in which state. -/
def ending (host : Host σ) (p : Position σ) : Except FaultRef Outcome × Run σ :=
  (evalNode host p.budget p.value).runOn p.run

/-- The position that an evaluation of a node starts with. -/
def start (q : Request) (root : NodeRef) (w : World σ) : Position σ :=
  ⟨q.frame.maxDepth, root, ⟨q.frame, w⟩⟩

/-! ## The course of a visit -/

/-- The node was entered, and the operands visited since then have ended with some outcomes. -/
inductive Progress (host : Host σ) (p : Position σ) : List Outcome → Run σ → Prop
  | entered {r} (budget : p.budget ≠ 0)
      (enter : (enterNode host p.value).runOn p.run = (.ok p.kind, r)) : p.Progress host [] r
  | visited {os r i v r₁ o r₂} (before : p.Progress host os r)
      (decided : (p.form.next host os).runOn r = (.ok (.visit i v), r₁))
      (visit : (evalNode host (p.budget - 1) v).runOn r₁ = (.ok o, r₂)) :
      p.Progress host (os ++ [o]) r₂

/-- The visit makes a visit to the operand in a slot, which is the second position. -/
structure Child (host : Host σ) (p : Position σ) (slot : Nat) (c : Position σ) : Prop where
  budget : c.budget + 1 = p.budget
  decided : ∃ os r, p.Progress host os r ∧
    (p.form.next host os).runOn r = (.ok (.visit slot c.value), c.run)

/-- The second position is reached in the course of the visit that is the first. -/
def Reaches (host : Host σ) : Position σ → Position σ → Prop :=
  ReflTransGen fun p c => ∃ slot, p.Child host slot c

/-- The rule of the node has ended with an outcome, and the node is still open. -/
def Settles (host : Host σ) (p : Position σ) (o : Outcome) (r : Run σ) : Prop :=
  ∃ os r₀, p.Progress host os r₀ ∧
    ((p.form.next host os).runOn r₀ = (.ok (.keep o), r) ∨
      (p.form.next host os).runOn r₀ = (.ok (.finish o), r))

/-- What the rule of the node ends with: it settles the visit, or a decision breaks it off, or the
visit to an operand does. -/
inductive RuleEnds (host : Host σ) (p : Position σ) : Except FaultRef Outcome × Run σ → Prop
  | settles {o r} (settled : p.Settles host o r) : p.RuleEnds host (.ok o, r)
  | breaks {os r₀ e r} (progress : p.Progress host os r₀)
      (decided : (p.form.next host os).runOn r₀ = (.error e, r)) : p.RuleEnds host (.error e, r)
  | breaksBelow {os r₀ i v r₁ e r} (progress : p.Progress host os r₀)
      (decided : (p.form.next host os).runOn r₀ = (.ok (.visit i v), r₁))
      (visit : (evalNode host (p.budget - 1) v).runOn r₁ = (.error e, r)) :
      p.RuleEnds host (.error e, r)

/-- The visit is broken off with a fault, and not by a visit that it makes: when the node is
entered, when its rule decides, or when the node is left. -/
inductive BreaksOff (host : Host σ) (p : Position σ) (e : FaultRef) (r : Run σ) : Prop
  | entering (h : (enterNode host p.value).runOn p.run = (.error e, r))
  | deciding {os r₀} (progress : p.Progress host os r₀)
      (h : (p.form.next host os).runOn r₀ = (.error e, r))
  | leaving {o r₀} (settled : p.Settles host o r₀)
      (h : (leaveNode host p.value p.kind o).runOn r₀ = (.error e, r))

/-- What is left to do once the rule of the node has ended: the node is left, unless a fault has
broken the rule off. -/
def leaving (host : Host σ) (p : Position σ) :
    Except FaultRef Outcome × Run σ → Except FaultRef Outcome × Run σ
  | (.ok o, r) => (do leaveNode host p.value p.kind o; return o : Eval σ Outcome).runOn r
  | (.error e, r) => (.error e, r)

/-! ## What holds at every position -/

/-- The node is a tree, the frame is balanced, and there is room for as many more open nodes as the
budget says. -/
structure IsSound (p : Position σ) : Prop where
  tree : p.run.world.store.IsTree p.node
  balanced : p.run.frame.IsBalanced
  room : p.run.frame.depth + p.budget = p.run.frame.maxDepth

theorem isSound_start (q : Request) {root : NodeRef} {w : World σ} (tree : w.store.IsTree root) :
    (start q root w).IsSound :=
  ⟨tree, Frame.isBalanced_start _ _ _ _, Nat.zero_add _⟩

variable {host : Host σ} {p : Position σ} {os : List Outcome} {r r₁ r' : Run σ}

/-- The operand that is visited is a node, and the visit to it is sound. -/
theorem IsSound.visit (sound : p.IsSound) (hk : host.KeepsTrees) (positive : p.budget ≠ 0)
    (push : p.run.frame.push p.value = .ok r.frame)
    (le : p.run.world.store ≤ r.world.store) {i : Nat} {v : Value}
    (decided : (p.form.next host os).runOn r = (.ok (.visit i v), r₁)) :
    ∃ m, v = .node m ∧ (⟨p.budget - 1, m, r₁⟩ : Position σ).IsSound := by
  have operand : v ∈ p.form.operands := Form.next_visit_mem decided
  obtain ⟨m, rfl⟩ := sound.tree.whole.operands v operand
  have changes := (p.form.makes_next os).of_run decided
  have frame := Run.Change.frame_eq changes
  obtain ⟨depth, maxDepth, -⟩ := Frame.depth_of_push push
  refine ⟨m, rfl, ?_, ?_, ?_⟩
  · have tree := sound.tree.operand operand
    exact tree.mono (le_trans le (Run.Change.le_of_reflTransGen changes hk))
  · show r₁.frame.IsBalanced
    rw [frame]
    exact sound.balanced.push push
  · show r₁.frame.depth + (p.budget - 1) = r₁.frame.maxDepth
    have room := sound.room
    rw [frame, depth, maxDepth]
    omega

/-- While a node is open, it is the innermost one, and what lasts has lasted. -/
theorem Progress.isOpen (sound : p.IsSound) (hk : host.KeepsTrees)
    (below : ∀ c : Position σ, c.budget < p.budget → c.IsSound →
      ∀ o r', c.ending host = (.ok o, r') →
        r'.frame = c.run.frame ∧ c.run.world.store ≤ r'.world.store)
    (h : p.Progress host os r) :
    p.budget ≠ 0 ∧ p.run.frame.push p.value = .ok r.frame ∧
      p.run.world.store ≤ r.world.store := by
  induction h with
  | entered budget enter =>
    obtain ⟨-, push, le⟩ := enterNode_ok enter
    exact ⟨budget, push, le hk⟩
  | visited before decided visit ih =>
    obtain ⟨positive, push, le⟩ := ih
    obtain ⟨m, rfl, csound⟩ := sound.visit hk positive push le decided
    have changes := (p.form.makes_next _).of_run decided
    obtain ⟨frame, le'⟩ := below ⟨p.budget - 1, m, _⟩ (by dsimp only; omega) csound _ _ visit
    refine ⟨positive, ?_, ?_⟩
    · rw [push, frame, Run.Change.frame_eq changes]
    · exact le_trans le (le_trans (Run.Change.le_of_reflTransGen changes hk) le')

/-- A rule that goes on from where a visit has come to brings the rule to an end. -/
theorem Progress.ends (h : p.Progress host os r) {q : Except FaultRef Outcome × Run σ}
    (goes : GoesOn (evalNode host (p.budget - 1)) (p.form.next host) os r q) :
    p.RuleEnds host q := by
  induction goes with
  | broken decided => exact .breaks h decided
  | keeps decided => exact .settles ⟨_, _, h, .inl decided⟩
  | finishes decided => exact .settles ⟨_, _, h, .inr decided⟩
  | brokenBelow decided visited => exact .breaksBelow h decided visited
  | visits decided visited rest ih => exact ih (.visited h decided visited)

/-- The rule goes on from where a visit has come to as it went on from the start. -/
theorem Progress.entry (h : p.Progress host os r) :
    p.budget ≠ 0 ∧ ∃ r₀, (enterNode host p.value).runOn p.run = (.ok p.kind, r₀) ∧
      ∀ q, GoesOn (evalNode host (p.budget - 1)) (p.form.next host) os r q →
        GoesOn (evalNode host (p.budget - 1)) (p.form.next host) [] r₀ q := by
  induction h with
  | entered budget enter => exact ⟨budget, _, enter, fun _ goes => goes⟩
  | visited before decided visit ih =>
    obtain ⟨positive, r₀, enter, back⟩ := ih
    exact ⟨positive, r₀, enter, fun q goes => back q (.visits decided visit goes)⟩

/-- Where the node was entered, the ending is that of the rule, after which the node is left. -/
theorem ending_eq_leaving (sound : p.IsSound) (hk : host.KeepsTrees) (positive : p.budget ≠ 0)
    (enter : (enterNode host p.value).runOn p.run = (.ok p.kind, r)) :
    ∃ q, p.ending host = p.leaving host q ∧
      ∀ q', GoesOn (evalNode host (p.budget - 1)) (p.form.next host) [] r q' ↔ q' = q := by
  obtain ⟨b, hb⟩ := Nat.exists_eq_succ_of_ne_zero positive
  have budget : p.budget - 1 = b := by omega
  have le := (enterNode_ok enter).2.2 hk
  have same : r.world.store.form p.node = p.form := Store.form_eq_of_le le sound.tree.whole.made
  have rule : GoesOn (evalNode host b) (p.form.next host) [] r
      ((evalForm host (evalNode host b) p.form).runOn r) :=
    evalForm_goesOn sound.tree.whole.fit r
  refine ⟨(evalForm host (evalNode host b) p.form).runOn r, ?_, fun q' => ?_⟩
  · have opened : (evalOpen host (evalNode host b) p.value).runOn r =
        (evalForm host (evalNode host b) p.form).runOn r := by
      show (evalForm host (evalNode host b) (r.world.store.form p.node)).runOn r = _
      rw [same]
    rw [ending, hb, Nat.succ_eq_add_one, evalNode, Work.runOn_bind_ok enter, Work.runOn_bind,
      opened]
    rcases (evalForm host (evalNode host b) p.form).runOn r with ⟨e | o, r'⟩ <;> rfl
  · rw [budget]
    exact ⟨fun h => h.unique rule, fun h => h ▸ rule⟩

/-- A node that cannot be opened ends the visit at once. -/
theorem ending_of_refused (host : Host σ) {refusal : Frame.Refusal}
    (h : p.run.frame.push p.value = .error refusal) :
    p.ending host =
      (Eval.ofAttempt (Attempt.malformed (p.run.world.store.placeOf p.value) refusal.message) :
        Eval σ Outcome).runOn p.run := by
  have refused := runOn_openNode_of_refused h
  rw [ending]
  cases p.budget with
  | zero => exact Work.runOn_bind_error refused _
  | succ b => exact Work.runOn_bind_error (Work.runOn_bind_error refused _) _

/-- Where there is no budget left, the node cannot be opened. -/
theorem IsSound.refused (sound : p.IsSound) (h : p.budget = 0) :
    ∃ refusal, p.run.frame.push p.value = .error refusal := by
  rcases push : p.run.frame.push p.value with refusal | f
  · exact ⟨refusal, rfl⟩
  · have room := sound.room
    have free := (Frame.depth_of_push push).2.2
    omega

/-- A visit whose node cannot be entered ends with that. -/
theorem ending_of_enter_error (sound : p.IsSound) {e : FaultRef}
    (h : (enterNode host p.value).runOn p.run = (.error e, r)) :
    p.ending host = (.error e, r) := by
  cases hb : p.budget with
  | zero =>
    obtain ⟨refusal, refused⟩ := sound.refused hb
    have entering : (enterNode host p.value).runOn p.run =
        (Eval.ofAttempt (Attempt.malformed (p.run.world.store.placeOf p.value) refusal.message) :
          Eval σ String).runOn p.run :=
      Work.runOn_bind_error (runOn_openNode_of_refused refused) _
    rw [entering] at h
    rw [ending_of_refused host refused]
    cases h
    rfl
  | succ b =>
    rw [ending, hb, evalNode]
    exact Work.runOn_bind_error h _

/-- A node that can be entered leaves a budget for its operands. -/
theorem IsSound.positive (sound : p.IsSound) {kind : String}
    (h : (enterNode host p.value).runOn p.run = (.ok kind, r)) : p.budget ≠ 0 := by
  intro none
  obtain ⟨refusal, refused⟩ := sound.refused none
  rw [(enterNode_ok h).2.1] at refused
  cases refused

/-- Every visit is broken off on entering the node, or its rule comes to an end. -/
theorem ending_cases (sound : p.IsSound) (hk : host.KeepsTrees) :
    (∃ e r, (enterNode host p.value).runOn p.run = (.error e, r) ∧
      p.ending host = (.error e, r)) ∨
    ∃ q, p.ending host = p.leaving host q ∧ p.RuleEnds host q := by
  rcases enter : (enterNode host p.value).runOn p.run with ⟨e | kind, r⟩
  · exact .inl ⟨e, r, rfl, ending_of_enter_error sound enter⟩
  · obtain rfl : kind = p.kind := (enterNode_ok enter).1
    have positive := sound.positive enter
    obtain ⟨q, ending, only⟩ := ending_eq_leaving sound hk positive enter
    exact .inr ⟨q, ending, (Progress.entered positive enter).ends ((only q).2 rfl)⟩

/-- However the rule comes to an end, the visit ends with it. -/
theorem ending_of_ruleEnds (sound : p.IsSound) (hk : host.KeepsTrees)
    {q : Except FaultRef Outcome × Run σ} (h : p.RuleEnds host q) :
    p.ending host = p.leaving host q := by
  have back : ∀ {os r}, p.Progress host os r →
      GoesOn (evalNode host (p.budget - 1)) (p.form.next host) os r q →
      p.ending host = p.leaving host q := by
    intro os r progress goes
    obtain ⟨positive, r₀, enter, back⟩ := progress.entry
    obtain ⟨q', ending, only⟩ := ending_eq_leaving sound hk positive enter
    rw [ending, ← (only _).1 (back _ goes)]
  cases h with
  | settles settled =>
    obtain ⟨os, r₀, progress, decided⟩ := settled
    obtain decided | decided := decided
    · exact back progress (.keeps decided)
    · exact back progress (.finishes decided)
  | breaks progress decided => exact back progress (.broken decided)
  | breaksBelow progress decided visit => exact back progress (.brokenBelow decided visit)

/-- A visit that ends well leaves the frame as it was, and what lasts has lasted. -/
theorem ending_keeps (hk : host.KeepsTrees) (sound : p.IsSound) {o : Outcome}
    (h : p.ending host = (.ok o, r')) :
    r'.frame = p.run.frame ∧ p.run.world.store ≤ r'.world.store := by
  induction hb : p.budget using Nat.strongRecOn generalizing p o r' with
  | ind b ih =>
    obtain ⟨e, r, -, ending⟩ | ⟨q, ending, ends⟩ := ending_cases sound hk
    · rw [ending] at h
      cases h
    · rw [ending] at h
      have below : ∀ c : Position σ, c.budget < p.budget → c.IsSound →
          ∀ o r', c.ending host = (.ok o, r') →
            r'.frame = c.run.frame ∧ c.run.world.store ≤ r'.world.store :=
        fun c less csound o r' cending => ih c.budget (hb ▸ less) csound cending rfl
      cases ends with
      | breaks progress decided => cases h
      | breaksBelow progress decided visit => cases h
      | settles settled =>
        obtain ⟨os, r₀, progress, decided⟩ := settled
        obtain ⟨-, push, le⟩ := progress.isOpen sound hk below
        obtain ⟨u, r₂, left, done⟩ := Work.runOn_bind_eq_ok.1 h
        cases done
        have changes := Form.changes_of_end decided
        rw [← Run.Change.frame_eq changes] at push
        obtain ⟨pop, le'⟩ := leaveNode_ok left
        rw [Frame.pop_of_push push] at pop
        exact ⟨(Prod.mk.inj pop).2.symm, le_trans le
          (le_trans (Run.Change.le_of_reflTransGen changes hk) (le' hk))⟩

/-! ## Visits below -/

/-- While a node is open, it is the innermost one, and what lasts has lasted. -/
theorem Progress.push_eq (h : p.Progress host os r) (sound : p.IsSound) (hk : host.KeepsTrees) :
    p.run.frame.push p.value = .ok r.frame ∧ p.run.world.store ≤ r.world.store :=
  (h.isOpen sound hk fun _ _ csound _ _ ending => ending_keeps hk csound ending).2

/-- A node whose rule has ended is still the innermost one that is open. -/
theorem Settles.push_eq {o : Outcome} (h : p.Settles host o r) (sound : p.IsSound)
    (hk : host.KeepsTrees) : p.run.frame.push p.value = .ok r.frame := by
  obtain ⟨os, r₀, progress, decided⟩ := h
  have changes := Form.changes_of_end decided
  rw [(progress.push_eq sound hk).1, Run.Change.frame_eq changes]

/-- The visit that a decision asks for is a child. -/
theorem Progress.child (h : p.Progress host os r) (sound : p.IsSound) (hk : host.KeepsTrees)
    {i : Nat} {v : Value} (decided : (p.form.next host os).runOn r = (.ok (.visit i v), r₁)) :
    ∃ c : Position σ, v = c.value ∧ p.Child host i c ∧ c.IsSound ∧ c.run = r₁ ∧
      c.ending host = (evalNode host (p.budget - 1) v).runOn r₁ := by
  obtain ⟨push, le⟩ := h.push_eq sound hk
  have positive := h.entry.1
  obtain ⟨m, rfl, csound⟩ := sound.visit hk positive push le decided
  refine ⟨⟨p.budget - 1, m, r₁⟩, rfl, ⟨?_, os, r, h, decided⟩, csound, rfl, rfl⟩
  show p.budget - 1 + 1 = p.budget
  omega

theorem Child.ending_eq {i : Nat} {c : Position σ} (h : p.Child host i c) :
    (evalNode host (p.budget - 1) c.value).runOn c.run = c.ending host := by
  rw [ending, ← h.budget, Nat.add_sub_cancel]

/-- The visits that a sound visit makes are sound. -/
theorem Child.isSound {i : Nat} {c : Position σ} (h : p.Child host i c) (sound : p.IsSound)
    (hk : host.KeepsTrees) : c.IsSound := by
  obtain ⟨os, r, progress, decided⟩ := h.decided
  obtain ⟨d, same, child, dsound, run, -⟩ := progress.child sound hk decided
  obtain ⟨b, n, r₁⟩ := c
  obtain ⟨b', n', r₁'⟩ := d
  cases same
  cases run
  obtain rfl : b = b' := Nat.succ.inj (h.budget.trans child.budget.symm)
  exact dsound

/-- A visit runs with the debug switch of the visit that makes it. -/
theorem Child.debug_eq {i : Nat} {c : Position σ} (h : p.Child host i c) (sound : p.IsSound)
    (hk : host.KeepsTrees) : c.run.frame.debug = p.run.frame.debug := by
  obtain ⟨os, r, progress, decided⟩ := h.decided
  have frame := Run.Change.frame_eq ((p.form.makes_next os).of_run decided)
  rw [frame, (Frame.settings_of_push (progress.push_eq sound hk).1).2.1]

/-- A node that is open has the environment with which it was entered. -/
theorem Progress.vars_eq (h : p.Progress host os r) (sound : p.IsSound) (hk : host.KeepsTrees) :
    r.frame.vars = p.run.frame.vars :=
  (Frame.settings_of_push (h.push_eq sound hk).1).1

/-- A visit runs in the environment of the visit that makes it. -/
theorem Child.vars_eq {i : Nat} {c : Position σ} (h : p.Child host i c) (sound : p.IsSound)
    (hk : host.KeepsTrees) : c.run.frame.vars = p.run.frame.vars := by
  obtain ⟨os, r, progress, decided⟩ := h.decided
  rw [Run.Change.frame_eq ((p.form.makes_next os).of_run decided), progress.vars_eq sound hk]

theorem isSound_of_reaches {c : Position σ} (h : p.Reaches host c) (sound : p.IsSound)
    (hk : host.KeepsTrees) : c.IsSound := by
  induction h with
  | refl => exact sound
  | tail _ step ih =>
    obtain ⟨i, child⟩ := step
    exact child.isSound ih hk

/-! ## Endings -/

/-- A visit ends well when its rule has ended and the node could be left. -/
theorem ending_eq_ok_iff (sound : p.IsSound) (hk : host.KeepsTrees) {o : Outcome} :
    p.ending host = (.ok o, r') ↔
      ∃ r, p.Settles host o r ∧ (leaveNode host p.value p.kind o).runOn r = (.ok (), r') := by
  constructor
  · intro h
    obtain ⟨e, r, -, ending⟩ | ⟨q, ending, ends⟩ := ending_cases sound hk
    · rw [ending] at h
      cases h
    · rw [ending] at h
      cases ends with
      | breaks progress decided => cases h
      | breaksBelow progress decided visit => cases h
      | settles settled =>
        obtain ⟨u, r₁, left, done⟩ := Work.runOn_bind_eq_ok.1 h
        cases done
        exact ⟨_, settled, left⟩
  · rintro ⟨r, settled, left⟩
    rw [ending_of_ruleEnds sound hk (.settles settled)]
    exact Work.runOn_bind_ok left _

/-- A visit is broken off by what it does itself or by a visit that it makes. -/
theorem ending_eq_error_iff (sound : p.IsSound) (hk : host.KeepsTrees) {e : FaultRef} :
    p.ending host = (.error e, r') ↔
      p.BreaksOff host e r' ∨ ∃ i c, p.Child host i c ∧ c.ending host = (.error e, r') := by
  constructor
  · intro h
    obtain ⟨e', r, enter, ending⟩ | ⟨q, ending, ends⟩ := ending_cases sound hk
    · rw [ending] at h
      cases h
      exact .inl (.entering enter)
    · rw [ending] at h
      cases ends with
      | settles settled =>
        obtain left | ⟨u, r₁, -, done⟩ := Work.runOn_bind_eq_error.1 h
        · exact .inl (.leaving settled left)
        · cases done
      | breaks progress decided =>
        cases h
        exact .inl (.deciding progress decided)
      | breaksBelow progress decided visit =>
        cases h
        obtain ⟨c, rfl, child, -, rfl, cending⟩ := progress.child sound hk decided
        exact .inr ⟨_, c, child, by rw [cending, visit]⟩
  · rintro (broken | ⟨i, c, child, cending⟩)
    · cases broken with
      | entering enter => exact ending_of_enter_error sound enter
      | deciding progress decided =>
        exact ending_of_ruleEnds sound hk (.breaks progress decided)
      | leaving settled left =>
        rw [ending_of_ruleEnds sound hk (.settles settled)]
        exact Work.runOn_bind_error left _
    · obtain ⟨os, r, progress, decided⟩ := child.decided
      rw [← child.ending_eq] at cending
      exact ending_of_ruleEnds sound hk (.breaksBelow progress decided cending)

/-- A visit is broken off exactly where a visit that it reaches breaks off by itself. -/
theorem ending_eq_error_iff_reaches (sound : p.IsSound) (hk : host.KeepsTrees) {e : FaultRef} :
    p.ending host = (.error e, r') ↔ ∃ c, p.Reaches host c ∧ c.BreaksOff host e r' := by
  constructor
  · intro h
    induction hb : p.budget using Nat.strongRecOn generalizing p with
    | ind b ih =>
      obtain broken | ⟨i, c, child, cending⟩ := (ending_eq_error_iff sound hk).1 h
      · exact ⟨p, .refl, broken⟩
      · have less : c.budget < b := by
          have := child.budget
          omega
        obtain ⟨d, reached, broken⟩ := ih c.budget less (child.isSound sound hk) cending rfl
        exact ⟨d, .head ⟨i, child⟩ reached, broken⟩
  · rintro ⟨c, reached, broken⟩
    induction reached using ReflTransGen.head_induction_on with
    | refl => exact (ending_eq_error_iff sound hk).2 (.inl broken)
    | head step _ ih =>
      obtain ⟨i, child⟩ := step
      exact (ending_eq_error_iff sound hk).2
        (.inr ⟨i, _, child, ih (child.isSound sound hk)⟩)

/-- An evaluation of a node ends as the visit that it starts with. -/
theorem runOn_evaluate (q : Request) (root : NodeRef) (w : World σ) :
    (evaluate host q (.node root)).runOn w =
      (((start q root w).ending host).1, ((start q root w).ending host).2.world) := rfl

end Position

end Fallback
