import Fallback.Proofs.Block
import Fallback.Proofs.Observer

/-!
Evaluations that share a trace.

Many evaluations may be told to the same trace: one after the other, with resets in between, and
inside each other, where a callable starts one. The host is free to do other things as well, but it
leaves the trace to the evaluations.

`World.Comes` has the worlds at all moments of such work, also in the middle of an evaluation, and
whatever becomes of it: an evaluation goes on by `Run.Step`, so it comes from moment to moment.
`World.Shares` has what has been completed; it can ask that every evaluation which is traced has
returned an outcome. The host of an evaluation is a different one at each time, so what it would do
in a turn that it does not take there is of no account.

`TraceSession` has the worlds between the evaluations that nothing has started. At any moment the
trace is faithful; and if all evaluations have returned, it consists of their blocks:
`TraceSession.isFaithful_and_blocks`.
-/
namespace Fallback

open Relation (ReflTransGen)

variable {σ : Type} {host : Host σ} {sure : Bool} {w w₁ w' m : World σ}

/-! ## Moments -/

/-- Work that starts in the first world comes to the second at some moment: it has done other
things, which have left the trace as it is, and steps of evaluations, whose hosts do work of the
same kind in their turns. -/
inductive World.Comes : World σ → World σ → Prop
  | here (w : World σ) : World.Comes w w
  | aside {w m m' : World σ} (before : World.Comes w m) (same : m'.trace = m.trace) :
    World.Comes w m'
  | step {w : World σ} {host : Host σ} {r r' : Run σ} (before : World.Comes w r.world)
    (turns : ∀ u u', host.Turn u u' → World.Comes u u') (step : r.Step host r') :
    World.Comes w r'.world

theorem World.Comes.trans (h : w.Comes w₁) (h' : w₁.Comes m) : w.Comes m := by
  induction h' with
  | here => exact h
  | aside _ same ih => exact .aside (ih h) same
  | step _ turns step ih _ => exact .step (ih h) turns step

/-- An evaluation comes from moment to moment. -/
theorem World.Comes.of_leads {r r' : Run σ} (h : w.Comes r.world)
    (turns : ∀ u u', host.Turn u u' → u.Comes u') (leads : r.Leads host r') :
    w.Comes r'.world := by
  induction leads with
  | refl => exact h
  | tail _ step ih => exact .step ih turns step

theorem comes_evaluate (turns : ∀ u u', host.Turn u u' → u.Comes u') (q : Request) (root : Value)
    (w : World σ) : w.Comes ((evaluate host q root).runOn w).2 := by
  unfold evaluate
  split
  · have start : w.Comes (⟨q.frame, w⟩ : Run σ).world := .here w
    exact start.of_leads turns (steps_evalNode q.frame.maxDepth root ⟨q.frame, w⟩)
  · exact .aside (.here w) rfl

/-- Up to any moment the trace was told something, and nothing else has happened to it. -/
theorem World.Comes.exists_record (h : w.Comes m) : ∃ ns, m.trace = w.trace.record ns := by
  induction h with
  | here => exact ⟨[], rfl⟩
  | aside _ same ih =>
    obtain ⟨ns, record⟩ := ih
    exact ⟨ns, same.trans record⟩
  | @step w host r r' _ _ step ih turns =>
    obtain ⟨ns, record⟩ := ih
    obtain ⟨ms, more⟩ : ∃ ms, r'.world.trace = r.world.trace.record ms := by
      cases step with
      | place v o => exact ⟨[], rfl⟩
      | quiet quiet =>
        cases quiet with
        | frame f => exact ⟨[], rfl⟩
        | enter v => exact ⟨[.enter v], rfl⟩
        | exit v o => exact ⟨[.exit v o], rfl⟩
        | change change =>
          cases change with
          | log record => exact ⟨[], rfl⟩
          | world change =>
            cases change with
            | store change => exact ⟨[], rfl⟩
            | run routine args => exact turns _ _ (.run routine args)
            | truth o => exact turns _ _ (.truth o)
    exact ⟨ns ++ ms, by rw [more, record, Trace.record_append]⟩

/-! ## Completed work -/

/-- The evaluation is of a tree, with a debug switch whose truth can be told; and if it is traced,
it returns an outcome. -/
structure Returns (host : Host σ) (q : Request) (root : Value) (w : World σ) : Prop where
  tree : ∃ n, root = .node n ∧ w.store.IsTree n
  answers : host.Answers q.options.debugTrace
  outcome (traced : q.traced = true) : ∃ o, ((evaluate host q root).runOn w).1 = .ok o

/-- Work that starts in the first world is completed in the second: it has done other things, which
have left the trace as it is, and evaluations, whose hosts do work of the same kind in their turns.
If it is sure, then the other things have kept what lasts in the store, and all evaluations have
returned. -/
inductive World.Shares (sure : Bool) : World σ → World σ → Prop
  | rest (w : World σ) : World.Shares sure w w
  | aside {w w₁ w' : World σ} (before : World.Shares sure w w₁) (same : w'.trace = w₁.trace)
    (le : sure = true → w₁.store ≤ w'.store) : World.Shares sure w w'
  | evaluates {w w₁ : World σ} {host : Host σ} (before : World.Shares sure w w₁)
    (turns : ∀ u u', host.Turn u u' → World.Shares sure u u') (q : Request) (root : Value)
    (returns : sure = true → Returns host q root w₁) :
    World.Shares sure w ((evaluate host q root).runOn w₁).2

/-- Completed work is at one of its moments. -/
theorem World.Shares.comes (h : w.Shares sure w') : w.Comes w' := by
  induction h with
  | rest => exact .here _
  | aside _ same _ ih => exact .aside ih same
  | evaluates _ _ q root _ ih turns => exact ih.trans (comes_evaluate turns q root _)

/-- Work in which all evaluations have returned has added blocks. -/
theorem World.Shares.exists_gains (h : w.Shares true w') : ∃ parts, w.Gains parts w' := by
  induction h with
  | rest => exact ⟨[], .of_trace_eq le_rfl rfl⟩
  | aside _ same le ih =>
    obtain ⟨parts, gains⟩ := ih
    exact ⟨_, gains.trans (.of_trace_eq (le rfl) same)⟩
  | @evaluates w w₁ host _ _ q root returns ih adds =>
    obtain ⟨parts, gains⟩ := ih
    obtain ⟨⟨n, rfl, tree⟩, answers, outcome⟩ := returns rfl
    cases traced : q.traced with
    | true =>
      obtain ⟨o, returned⟩ := outcome traced
      exact ⟨_, gains.trans (gains_evaluate adds tree answers traced returned)⟩
    | false =>
      obtain ⟨more, added⟩ := exists_gains_evaluate adds tree answers traced
      exact ⟨_, gains.trans added⟩

/-! ## Sessions -/

/-- A session with a trace has come to a world, and no evaluation goes on there. The list has the
evaluations since the trace was reset that nothing has started: the root and what it ended with. -/
inductive TraceSession (sure : Bool) :
    World σ → List (Value × Except FaultRef Outcome) → Prop
  | fresh {w : World σ} (new : w.trace = .empty) : TraceSession sure w []
  | aside {w w' : World σ} {done : List (Value × Except FaultRef Outcome)}
    (before : TraceSession sure w done) (same : w'.trace = w.trace)
    (le : sure = true → w.store ≤ w'.store) : TraceSession sure w' done
  | reset {w : World σ} {done : List (Value × Except FaultRef Outcome)}
    (before : TraceSession sure w done) : TraceSession sure { w with trace := .empty } []
  | evaluates {w : World σ} {done : List (Value × Except FaultRef Outcome)} {host : Host σ}
    (before : TraceSession sure w done) (turns : ∀ u u', host.Turn u u' → u.Shares sure u')
    (q : Request) (traced : q.traced = true) (root : Value)
    (returns : sure = true → Returns host q root w) :
    TraceSession sure ((evaluate host q root).runOn w).2
      (done ++ [(root, ((evaluate host q root).runOn w).1)])

/-- Between the evaluations the trace is faithful. -/
theorem TraceSession.isFaithful {done : List (Value × Except FaultRef Outcome)}
    (h : TraceSession sure w done) : w.trace.IsFaithful := by
  induction h with
  | fresh new =>
    rw [new]
    exact Trace.isFaithful_empty
  | aside _ same _ ih =>
    rw [same]
    exact ih
  | reset => exact Trace.isFaithful_empty
  | @evaluates w _ _ _ turns q _ root _ ih =>
    have comes := comes_evaluate (fun u u' turn => (turns u u' turn).comes) q root w
    obtain ⟨ns, record⟩ := comes.exists_record
    rw [record]
    exact ih.record ns

/-- Between evaluations all of which have returned the trace is the blocks of their roots. -/
theorem TraceSession.exists_blocks {done : List (Value × Except FaultRef Outcome)}
    (h : TraceSession true w done) :
    w.trace.depth = 0 ∧ ∃ parts : List (NodeRef × Outcome),
      done = parts.map (fun x => (.node x.1, .ok x.2)) ∧
      Blocks w.store 0 parts w.trace.events.toList := by
  induction h with
  | fresh new =>
    rw [new]
    exact ⟨rfl, [], rfl, .nil⟩
  | reset => exact ⟨rfl, [], rfl, .nil⟩
  | aside _ same le ih =>
    rw [same]
    obtain ⟨depth, parts, ended, blocks⟩ := ih
    exact ⟨depth, parts, ended, blocks.mono (le rfl)⟩
  | @evaluates w done host _ turns q traced root returns ih =>
    obtain ⟨depth, parts, ended, blocks⟩ := ih
    obtain ⟨⟨n, rfl, tree⟩, answers, outcome⟩ := returns rfl
    obtain ⟨o, returned⟩ := outcome traced
    have gains := gains_evaluate (fun u u' turn => (turns u u' turn).exists_gains) tree answers
      traced returned
    obtain ⟨es, added, block⟩ := gains.events
    -- nothing is open between the evaluations, so this block stands beside those of the others
    rw [depth] at block
    refine ⟨gains.depth.trans depth, parts ++ [(n, o)], ?_, ?_⟩
    · rw [ended, returned, List.map_append]
      rfl
    · rw [added]
      exact (blocks.mono gains.le).append block

/-- At every moment of a session with a trace, whatever becomes of the evaluations, the trace is
faithful. If all evaluations have returned, then the events since the last reset are blocks, one for
each evaluation that nothing has started, with the outcome that it returned; and between those the
trace is balanced. -/
theorem TraceSession.isFaithful_and_blocks {done : List (Value × Except FaultRef Outcome)}
    (h : TraceSession sure w done) :
    (∀ m, w.Comes m → m.trace.IsFaithful) ∧
      (sure = true → w.trace.isBalanced = true ∧ ∃ parts : List (NodeRef × Outcome),
        done = parts.map (fun x => (.node x.1, .ok x.2)) ∧
        Blocks w.store 0 parts w.trace.events.toList) := by
  constructor
  · intro m comes
    obtain ⟨ns, record⟩ := comes.exists_record
    rw [record]
    exact h.isFaithful.record ns
  · rintro rfl
    obtain ⟨depth, blocks⟩ := h.exists_blocks
    exact ⟨decide_eq_true depth, blocks⟩

/-- What a routine does that evaluates the first node and shares the trace, where that node is a
literal. -/
def literalEvaluation (w : World Unit) : Ending Unit Value :=
  match w.store.form ⟨0⟩ with
  | .literal _ => if 0 < w.store.nodes.size then nestedEvaluation.runOn w else (.ok .null, w)
  | _ => (.ok .null, w)

/-- The host whose routines do this. -/
def sharingHost : Host Unit :=
  ⟨fun _ _ => literalEvaluation, Host.idle.truth⟩

theorem returns_of_literal {w : World Unit} {v : Value} (made : 0 < w.store.nodes.size)
    (form : w.store.form ⟨0⟩ = .literal v) : Returns Host.idle .sharing (.node ⟨0⟩) w := by
  have tree : w.store.IsTree ⟨0⟩ :=
    .of_trees [] made (form ▸ trivial) (congrArg Form.operands form) nofun
  refine ⟨⟨⟨0⟩, rfl, tree⟩, answers_of_isHosted_eq_false rfl, fun _ => ?_⟩
  let p := Position.start .sharing ⟨0⟩ w
  let f : Frame := { p.run.frame with stack := [.node ⟨0⟩], active := [.node ⟨0⟩] }
  let entered : Run Unit := ⟨f, { w with trace := w.trace.enter p.value }⟩
  have budget : p.budget ≠ 0 := show Request.sharing.frame.maxDepth ≠ 0 by decide
  have progress : p.Progress Host.idle [] entered := .entered budget rfl
  have decided : (p.form.next Host.idle []).runOn entered =
      (.ok (.finish ⟨⟨w.store.outcomes.size⟩, .success v⟩),
        ⟨f, { entered.world with store := (w.store.addOutcome (.success v)).2 }⟩) := by
    have same : p.form = .literal v := form
    rw [same]
    rfl
  have ended := (Position.ending_eq_ok_iff (Position.isSound_start .sharing tree)
    keepsTrees_idle).2 ⟨_, ⟨[], entered, progress, .inr decided⟩, rfl⟩
  exact ⟨_, congrArg Prod.fst ended⟩

theorem shares_sharingHost {u u' : World Unit} (turn : sharingHost.Turn u u') :
    u.Shares true u' := by
  have idle : ∀ v v', Host.idle.Turn v v' → World.Shares true v v' := by
    intro v v' turn
    cases turn <;> exact .rest _
  cases turn with
  | truth o => exact .rest u
  | run r args =>
    show World.Shares true u (literalEvaluation u).2
    unfold literalEvaluation
    split
    · next v form =>
      split
      · next made =>
        have evaluated := World.Shares.evaluates (.rest u) idle .sharing (.node ⟨0⟩)
          fun _ => returns_of_literal made form
        have same : (nestedEvaluation.runOn u).2 =
            ((evaluate Host.idle .sharing (.node ⟨0⟩)).runOn u).2 := by
          rw [nestedEvaluation, Work.runOn_bind]
          rcases (evaluate Host.idle .sharing (.node ⟨0⟩)).runOn u with ⟨e | o, u'⟩ <;> rfl
        rw [same]
        exact evaluated
      · exact .rest u
    · exact .rest u

theorem isTree_nestingWorld : nestingWorld.store.IsTree ⟨2⟩ := by
  have callee : nestingWorld.store.IsTree ⟨1⟩ := .of_trees [] (by decide) trivial rfl nofun
  exact .of_trees [⟨1⟩] (by decide) ⟨[], _, rfl⟩ rfl (List.forall_mem_singleton.2 callee)

/-- A call whose callee starts an evaluation that shares the trace. -/
theorem isFaithful_and_blocks_of_nesting :
    ∃ (w : World Unit) (done : List (Value × Except FaultRef Outcome)),
      TraceSession true w done ∧ w.trace.nodes = [.node ⟨2⟩, .node ⟨1⟩, .node ⟨0⟩] ∧
      (∀ m, w.Comes m → m.trace.IsFaithful) ∧ w.trace.isBalanced = true ∧
      ∃ parts : List (NodeRef × Outcome), done = parts.map (fun x => (.node x.1, .ok x.2)) ∧
        Blocks w.store 0 parts w.trace.events.toList := by
  have returns : Returns sharingHost .sharing (.node ⟨2⟩) nestingWorld := by
    refine ⟨⟨⟨2⟩, rfl, isTree_nestingWorld⟩, answers_of_isHosted_eq_false rfl, fun _ => ?_⟩
    have returned :
        ((evaluate sharingHost .sharing (.node ⟨2⟩)).runOn nestingWorld).1.isOk = true := by
      decide +kernel
    rcases result : ((evaluate sharingHost .sharing (.node ⟨2⟩)).runOn nestingWorld).1 with e | o
    · rw [result] at returned
      cases returned
    · exact ⟨o, rfl⟩
  have session := TraceSession.evaluates (.fresh rfl) (fun _ _ => shares_sharingHost) .sharing rfl
    (.node ⟨2⟩) fun _ => returns
  obtain ⟨faithful, blocks⟩ := session.isFaithful_and_blocks
  obtain ⟨balanced, parts, ended, events⟩ := blocks rfl
  exact ⟨_, _, session, by decide +kernel, faithful, balanced, parts, ended, events⟩

end Fallback
