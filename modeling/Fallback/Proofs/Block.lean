import Fallback.Proofs.Occurrence
import Fallback.Proofs.Residue

/-!
The blocks that evaluations leave in a trace.

An evaluation that is traced and ends with an outcome leaves a block: the event that enters its root
is the first and the one that leaves it is the last. Between the two stand the blocks of the
operands that were visited, and those of the evaluations that the host started in a turn.
`Blocks` is the grammar of such events; it says where the turn of a node can be, so that the blocks
which a call has started come after those of its callee and of all its arguments.

`World.Gains` says that blocks were added between two worlds and that as many nodes are open as
before. A host all of whose turns add blocks (`Host.AddsBlocks`) makes evaluations that add blocks
again: `gains_evaluate`.
-/
namespace Fallback

open List (Forall₂)
open Relation (ReflTransGen)

variable {σ : Type} {host : Host σ}

/-! ## The grammar -/

/-- After how many operands the rule of a form may call the host: a call does after all of them, an
operator that asks for the truth of a value and a choice do after the first, and a raising node,
which has none, does at once. -/
def Form.turnAfter? : Form → Option Nat
  | .call callee args => some (Form.call callee args).operands.length
  | .fallback .onFalse _ _ | .ternary _ _ _ => some 1
  | .raise _ => some 0
  | .literal _ | .reference _ | .fallback _ _ _ => none

/-- The nodes are the operands of a form that are visited, in their order. -/
def Form.Visited (f : Form) (parts : List (NodeRef × Outcome)) : Prop :=
  ∃ slots, f.Slots slots ∧ Forall₂ (fun i x => f.operands[i]? = some (.node x.1)) slots parts

/-- The events are blocks at a depth, one for each of some nodes, which was entered and left with an
outcome. A block has the blocks of the operands inside, and those of evaluations that were started
between two operands or after the last one. -/
inductive Blocks (s : Store) : Int → List (NodeRef × Outcome) → List TraceEvent → Prop
  | nil {d} : Blocks s d [] []
  | cons {d n o before started after parts es fs} (made : n.index < s.nodes.size)
    (operands : (s.form n).Visited (before ++ after))
    (turn : started ≠ [] → (s.form n).turnAfter? = some before.length)
    (inside : Blocks s (d + 1) (before ++ started ++ after) es) (rest : Blocks s d parts fs) :
    Blocks s d ((n, o) :: parts)
      (.enter (.node n) d :: (es ++ .exit (.node n) d o.toValue :: fs))

namespace Blocks

variable {s s' : Store} {d : Int} {parts parts' : List (NodeRef × Outcome)}
  {es es' : List TraceEvent}

theorem append (h : Blocks s d parts es) (h' : Blocks s d parts' es') :
    Blocks s d (parts ++ parts') (es ++ es') := by
  induction h with
  | nil => exact h'
  | cons made operands turn inside _ _ ih =>
    have more := ih h'
    simpa using cons made operands turn inside more

/-- Blocks stay blocks: what is asked of a node lasts. -/
theorem mono (h : Blocks s d parts es) (le : s ≤ s') : Blocks s' d parts es := by
  induction h with
  | nil => exact .nil
  | cons made operands turn _ _ ihInside ih =>
    rw [← Store.form_eq_of_le le made] at operands turn
    exact .cons (le.node made).1 operands turn ihInside ih

end Blocks

/-! ## Gains -/

/-- From the first world to the second the trace gains blocks, and as many nodes are open in it as
before. -/
structure World.Gains (w : World σ) (parts : List (NodeRef × Outcome)) (w' : World σ) : Prop where
  le : w.store ≤ w'.store
  depth : w'.trace.depth = w.trace.depth
  events : ∃ es, w'.trace.events.toList = w.trace.events.toList ++ es ∧
    Blocks w'.store w.trace.depth parts es

namespace World.Gains

variable {w w₁ w₂ w' : World σ} {parts parts' : List (NodeRef × Outcome)}

theorem of_trace_eq (le : w.store ≤ w'.store) (same : w'.trace = w.trace) : w.Gains [] w' :=
  ⟨le, by rw [same], [], by rw [same, List.append_nil], .nil⟩

theorem trans (h : w.Gains parts w₁) (h' : w₁.Gains parts' w') : w.Gains (parts ++ parts') w' := by
  obtain ⟨es, added, blocks⟩ := h.events
  obtain ⟨es', added', blocks'⟩ := h'.events
  rw [h.depth] at blocks'
  refine ⟨h.le.trans h'.le, h'.depth.trans h.depth, es ++ es', ?_,
    (blocks.mono h'.le).append blocks'⟩
  rw [added', added, List.append_assoc]

/-- A node that is entered before some blocks and left after them makes a block around them. -/
theorem enclose {n : NodeRef} {o : Outcome} {before started after : List (NodeRef × Outcome)}
    (h : w₁.Gains (before ++ started ++ after) w₂) (enters : w₁.trace = w.trace.enter (.node n))
    (leaves : w'.trace = w₂.trace.exit (.node n) o.toValue) (first : w.store ≤ w₁.store)
    (last : w₂.store ≤ w'.store) (made : n.index < w'.store.nodes.size)
    (operands : (w'.store.form n).Visited (before ++ after))
    (turn : started ≠ [] → (w'.store.form n).turnAfter? = some before.length) :
    w.Gains [(n, o)] w' := by
  obtain ⟨es, added, blocks⟩ := h.events
  have opened : w₂.trace.depth = w.trace.depth + 1 := by
    rw [h.depth, enters]
    rfl
  have closed : w₂.trace.depth - 1 = w.trace.depth := by
    rw [opened]
    exact Int.add_sub_cancel _ _
  have inside : Blocks w'.store (w.trace.depth + 1) (before ++ started ++ after) es := by
    rw [← opened, h.depth]
    exact blocks.mono last
  refine ⟨first.trans (h.le.trans last), ?_, _, ?_, .cons made operands turn inside .nil⟩
  · rw [leaves]
    exact closed
  · rw [leaves, Trace.exit, Array.toList_push, added, enters, Trace.enter, Array.toList_push,
      closed]
    simp

end World.Gains

/-- In all its turns the host adds blocks to the trace, and nothing else. -/
def Host.AddsBlocks (host : Host σ) : Prop :=
  ∀ w w', host.Turn w w' → ∃ parts, w.Gains parts w'

theorem Host.AddsBlocks.keepsTrees (adds : host.AddsBlocks) : host.KeepsTrees := by
  refine ⟨fun r args w => ?_, fun o w => ?_⟩
  · obtain ⟨parts, gains⟩ := adds _ _ (.run (w := w) r args)
    exact gains.le
  · obtain ⟨parts, gains⟩ := adds _ _ (.truth (w := w) o)
    exact gains.le

section Runs

variable {r r' : Run σ} {v : Value}

/-- All that a rule does adds blocks. -/
theorem Run.Change.exists_gains (h : ReflTransGen (Run.Change host) r r')
    (adds : host.AddsBlocks) : ∃ parts, r.world.Gains parts r'.world := by
  induction h with
  | refl => exact ⟨[], .of_trace_eq le_rfl rfl⟩
  | @tail r₁ r₂ _ step ih =>
    obtain ⟨parts, gains⟩ := ih
    have more : ∃ parts', r₁.world.Gains parts' r₂.world := by
      cases step with
      | log record => exact ⟨[], .of_trace_eq le_rfl rfl⟩
      | world change =>
        cases change with
        | store change => exact ⟨[], .of_trace_eq change.le rfl⟩
        | run routine args => exact adds _ _ (.run routine args)
        | truth o => exact adds _ _ (.truth o)
    obtain ⟨parts', gains'⟩ := more
    exact ⟨_, gains.trans gains'⟩

/-- With a switch whose truth can be told, the entering of a node is noted and nothing else is. -/
theorem enterNode_of_answers {kind : String} (answers : host.Answers r.frame.debug)
    (h : (enterNode host v).runOn r = (.ok kind, r')) :
    r'.world.store = r.world.store ∧
      r'.world.trace = if r.frame.traced then r.world.trace.enter v else r.world.trace := by
  have push := (enterNode_ok h).2.1
  obtain ⟨f, w'⟩ := r'
  obtain ⟨-, debug, traced⟩ := Frame.settings_of_push push
  have same : host.Answers (⟨f, r.world⟩ : Run σ).frame.debug := debug ▸ answers
  obtain ⟨log, debugs⟩ := same.runOn_debug fun f => .enter (f.depth - 1)
    (r.world.store.typeName v)
  rw [enterNode, Work.runOn_bind_ok (runOn_openNode_of_push push),
    Work.runOn_bind_ok (Eval.runOn_store _), Work.runOn_bind_ok debugs, Eval.observe,
    Work.runOn_bind, Work.runOn_modify] at h
  dsimp only at h traced
  rw [← traced]
  cases told : f.traced with
  | true =>
    rw [told, if_pos rfl] at h
    cases h
    exact ⟨rfl, rfl⟩
  | false =>
    rw [told, if_neg Bool.false_ne_true] at h
    cases h
    exact ⟨rfl, rfl⟩

/-- A node that is refused is not noted. -/
theorem enterNode_error_of_answers {e : FaultRef} (hk : host.KeepsTrees)
    (answers : host.Answers r.frame.debug) (h : (enterNode host v).runOn r = (.error e, r')) :
    r.world.Gains [] r'.world := by
  obtain opened | ⟨f, push, failed, -⟩ := enterNode_eq_error_iff.1 h
  · have le := Run.Leads.le ((quiet_openNode v).steps.of_run opened) hk
    obtain ⟨refusal, -, refused⟩ := openNode_eq_error opened
    cases refused
    exact .of_trace_eq le rfl
  · rw [← (Frame.settings_of_push push).2.1] at answers
    obtain ⟨b, told⟩ := answers r.world
    rw [told] at failed
    cases failed

/-- With such a switch a node that is open is left, and its leaving is noted. -/
theorem leaveNode_of_answers {f : Frame} {kind : String} {o : Outcome}
    {result : Except FaultRef Unit} (answers : host.Answers r.frame.debug)
    (push : f.push v = .ok r.frame)
    (h : (leaveNode host v kind o).runOn r = (result, r')) :
    result = .ok () ∧ r'.world.store = (r.noted v o).store ∧
      r'.world.trace = (r.noted v o).trace := by
  have same : host.Answers (⟨r.frame, r.noted v o⟩ : Run σ).frame.debug := answers
  obtain ⟨log, debugs⟩ := same.runOn_debug fun f => .exit (f.depth - 1) kind o.isRaised
  have closes : (closeNode v : Eval σ Unit).runOn ⟨r.frame, { r.noted v o with log }⟩ =
      (.ok (), ⟨f, { r.noted v o with log }⟩) :=
    runOn_closeNode_of_pop (Frame.pop_of_push push)
  rw [runOn_leaveNode, Work.runOn_bind_ok debugs, closes] at h
  cases h
  exact ⟨rfl, rfl, rfl⟩

/-- What is put together without the host leaves the trace as it is. -/
theorem Act.trace_eq_of_composed {α : Type} {x : Act σ α} (hx : ∀ host : Host σ, x.Composed host)
    (w : World σ) : (x.runOn w).2.trace = w.trace := by
  have changes := (hx ⟨fun _ _ w => (.ok .null, w), fun _ w => (.ok true, w)⟩).makes w
  generalize (x.runOn w).2 = w' at changes
  induction changes with
  | refl => rfl
  | tail _ step ih =>
    rw [← ih]
    cases step <;> rfl

/-- Where it is not the turn of the host, a rule leaves the trace as it is. -/
theorem Form.trace_next {f : Form} {os : List Outcome} (answers : host.Answers r.frame.debug)
    (known : f.Known os) (other : f.turnAfter? ≠ some os.length) :
    ((f.next host os).runOn r).2.world.trace = r.world.trace := by
  cases f with
  | literal w => rfl
  | reference name =>
    have same := Act.trace_eq_of_composed (fun _ => composed_lookup r.frame.vars name) r.world
    have run : (lookupInFrame name : Eval σ Outcome).runOn r =
      (Eval.ofAct (lookup r.frame.vars name)).runOn r := rfl
    rw [Form.next, Work.runOn_bind, run, Eval.runOn_ofAct]
    generalize (lookup r.frame.vars name).runOn r.world = q at same
    obtain ⟨e | o, w⟩ := q
    · exact same
    · exact same
  | raise x =>
    have none : os.length = 0 := Nat.le_zero.1 known.length_le
    exact absurd (congrArg some none.symm) other
  | call callee args =>
    rcases os with _ | ⟨first, more⟩
    · rfl
    · simp only [Form.next, nextOfCall]
      split
      · rfl
      · split
        · rfl
        · next missing =>
          have enough := List.getElem?_eq_none_iff.1 missing
          have most : more.length + 1 ≤ args.tupleItems.length + 1 := known.length_le
          refine absurd (congrArg some ?_) other
          exact Nat.le_antisymm (Nat.succ_le_succ enough) most
  | fallback op lhs rhs =>
    obtain ⟨m, settled, -⟩ | ⟨self, w, rfl, rfl, -⟩ | ⟨self, e, rfl, rfl, falls⟩ :=
      nextOfFallback_cases host op lhs rhs os
    · rw [Form.next, settled]
      rfl
    · exact absurd rfl other
    · obtain ⟨log, debugs⟩ := answers.runOn_debug fun f => .fallingBack f.depth
      rw [Form.next, falls, Work.runOn_bind_ok debugs]
      rfl
  | ternary condition thenBranch elseBranch =>
    obtain ⟨m, settled, -⟩ | ⟨self, w, rfl, -⟩ :=
      nextOfTernary_cases host condition thenBranch elseBranch os
    · rw [Form.next, settled]
      rfl
    · exact absurd rfl other

/-- A decision adds blocks where it is the turn of the host. -/
theorem Form.exists_gains_of_next {f : Form} {os : List Outcome} (adds : host.AddsBlocks)
    (answers : host.Answers r.frame.debug) (known : f.Known os) :
    ∃ parts, r.world.Gains parts ((f.next host os).runOn r).2.world ∧
      (parts ≠ [] → f.turnAfter? = some os.length) := by
  have changes : ReflTransGen (Run.Change host) r ((f.next host os).runOn r).2 := f.makes_next os r
  by_cases turn : f.turnAfter? = some os.length
  · obtain ⟨parts, gains⟩ := Run.Change.exists_gains changes adds
    exact ⟨parts, gains, fun _ => turn⟩
  · have le := Run.Change.le_of_reflTransGen changes adds.keepsTrees
    exact ⟨[], .of_trace_eq le (Form.trace_next answers known turn), fun some => absurd rfl some⟩

end Runs

namespace Position

variable {p : Position σ} {path : List Nat} {es : List Happening} {st : Stage σ}
  {done : List (Nat × Outcome)} {o : Outcome} {r r' r₁ : Run σ}

/-! ## The blocks of a visit -/

/-- Since the node was entered, the visit has added the blocks of the operands that have ended, and
in between those of evaluations that were started in the turn of the node. -/
def AddsInside (p : Position σ) (done : List (Nat × Outcome))
    (before started after : List (NodeRef × Outcome)) (w : World σ) : Prop :=
  World.Gains { p.run.world with trace := p.run.world.trace.enter p.value }
      (before ++ started ++ after) w ∧
    Forall₂ (fun x y => p.form.operands[x.1]? = some (.node y.1)) done (before ++ after) ∧
    (started ≠ [] → p.form.turnAfter? = some before.length)

/-- What a visit that is traced has added to the trace at a stage: while the node is open, blocks
inside; once it has ended with an outcome, its own block. -/
def Adds (p : Position σ) : Stage σ → Prop
  | .isOpen done r => ∃ before started after, p.AddsInside done before started after r.world ∧
      (started ≠ [] → before.length < done.length)
  | .ended (.ok o, r) => p.run.world.Gains [(p.node, o)] r.world
  | .ended (.error _, _) => True

/-- A decision may start evaluations, if it has not been the turn of the node before. -/
theorem Adds.decide (h : p.Adds (.isOpen done r)) (adds : host.AddsBlocks)
    (answers : host.Answers r.frame.debug) (known : p.form.Known (done.map Prod.snd)) :
    ∃ before started after, p.AddsInside done before started after
      ((p.form.next host (done.map Prod.snd)).runOn r).2.world := by
  obtain ⟨before, started, after, ⟨inside, operands, turn⟩, earlier⟩ := h
  obtain ⟨parts, gains, own⟩ := Form.exists_gains_of_next adds answers known
  have gained := inside.trans gains
  by_cases none : parts = []
  · subst none
    rw [List.append_nil] at gained
    exact ⟨before, started, after, gained, operands, turn⟩
  · have now : p.form.turnAfter? = some done.length := by
      rw [own none, List.length_map]
    -- a node has one turn, so nothing was started before this one
    obtain rfl : started = [] := by
      by_contra some
      have same := Option.some.inj ((turn some).symm.trans now)
      have less := earlier some
      omega
    rw [List.append_nil] at gained
    refine ⟨before ++ after, parts, [], ?_, ?_, fun _ => ?_⟩
    · rw [List.append_nil]
      exact gained
    · rw [List.append_nil]
      exact operands
    · rw [now, operands.length_eq]

/-- When the rule of a node has ended, the node is left, and a visit that is traced notes so. -/
theorem Itinerary.leaves (h : p.Itinerary host path es (.isOpen done r)) (sound : p.IsSound)
    (hk : host.KeepsTrees) (answers : host.Answers p.run.frame.debug)
    (decided : (p.form.next host (done.map Prod.snd)).runOn r = (.ok (.keep o), r₁) ∨
      (p.form.next host (done.map Prod.snd)).runOn r = (.ok (.finish o), r₁))
    {result : Except FaultRef Unit}
    (leave : (leaveNode host p.value p.kind o).runOn r₁ = (result, r')) :
    r₁.world.store ≤ r'.world.store ∧ r'.world.trace =
      if p.run.frame.traced then r₁.world.trace.exit p.value o.toValue else r₁.world.trace := by
  have progress : p.Progress host _ r := h.comesTo sound hk
  have settings := Frame.settings_of_push (progress.push_eq sound hk).1
  have frame := Run.Change.frame_eq (Form.changes_of_end decided)
  have push : p.run.frame.push p.value = .ok r₁.frame := by
    rw [frame, (progress.push_eq sound hk).1]
  obtain ⟨-, store, trace⟩ := leaveNode_of_answers (frame ▸ settings.2.1 ▸ answers) push leave
  simp only [Run.noted, frame, settings.2.2] at store trace
  exact ⟨store ▸ Store.le_attachPlace _ _ _, trace⟩

/-- A visit that is traced adds blocks. -/
theorem Itinerary.adds (h : p.Itinerary host path es st) (adds : host.AddsBlocks)
    (sound : p.IsSound) (answers : host.Answers p.run.frame.debug)
    (traced : p.run.frame.traced = true) : p.Adds st := by
  have hk := adds.keepsTrees
  -- the induction carries `Adds`: while the node is open it keeps the blocks inside apart from
  -- their bracket, which is there only when the node has been left
  induction h with
  | refused | brokenBelow | broken | notLeft => trivial
  | @entered p path r budget enter =>
    obtain ⟨store, trace⟩ := enterNode_of_answers answers enter
    rw [traced, if_pos rfl] at trace
    refine ⟨[], [], [], ⟨.of_trace_eq (le_of_eq store.symm) trace, .nil, ?_⟩, ?_⟩
    · exact fun some => absurd rfl some
    · exact fun some => absurd rfl some
  | @visited p c path es fs done r i o r' before budget decided visit ihBefore ihVisit =>
    have progress : p.Progress host _ r := before.comesTo sound hk
    have settings := Frame.settings_of_push (progress.push_eq sound hk).1
    have child := progress.isChild budget decided
    have made := (ihBefore sound answers traced).decide adds (settings.2.1 ▸ answers) progress.known
    rw [decided] at made
    obtain ⟨first, started, last, inside, operands, turn⟩ := made
    have told : c.run.frame.traced = true := by
      rw [Run.Change.frame_eq ((p.form.makes_next _).of_run decided), settings.2.2, traced]
    have visited : c.run.world.Gains [(c.node, o)] r'.world :=
      ihVisit (child.isSound sound hk) (child.debug_eq sound hk ▸ answers) told
    refine ⟨first, started, last ++ [(c.node, o)], ⟨?_, ?_, turn⟩, fun _ => ?_⟩
    · rw [← List.append_assoc]
      exact inside.trans visited
    · rw [← List.append_assoc]
      exact List.rel_append operands (.cons (Form.operand_of_visit decided) .nil)
    · have lengths := operands.length_eq
      rw [List.length_append] at lengths
      rw [List.length_append, List.length_singleton]
      omega
  | @left p path es done r o r₁ r' before decided leave ih =>
    have progress : p.Progress host _ r := before.comesTo sound hk
    have settings := Frame.settings_of_push (progress.push_eq sound hk).1
    have made := (ih sound answers traced).decide adds (settings.2.1 ▸ answers) progress.known
    have ended : ((p.form.next host (done.map Prod.snd)).runOn r).2 = r₁ := by
      obtain decided | decided := decided <;> rw [decided]
    rw [ended] at made
    obtain ⟨first, started, last, inside, operands, turn⟩ := made
    obtain ⟨le, trace⟩ := before.leaves sound hk answers decided leave
    rw [traced, if_pos rfl] at trace
    have whole := sound.tree.whole.made
    have same : r'.world.store.form p.node = p.form :=
      Store.form_eq_of_le (inside.le.trans le) whole
    refine inside.enclose rfl trace le_rfl le ((inside.le.trans le).node whole).1 ?_ ?_
    · rw [same]
      exact ⟨done.map Prod.fst, before.slots, List.forall₂_map_left_iff.2 operands⟩
    · rw [same]
      exact turn

/-- A visit that is not traced adds the blocks of evaluations that the host has started. -/
theorem Itinerary.exists_gains (h : p.Itinerary host path es st) (adds : host.AddsBlocks)
    (sound : p.IsSound) (answers : host.Answers p.run.frame.debug)
    (traced : p.run.frame.traced = false) :
    ∃ parts, p.run.world.Gains parts st.run.world := by
  have hk := adds.keepsTrees
  induction h with
  | refused enter => exact ⟨[], enterNode_error_of_answers hk answers enter⟩
  | entered budget enter =>
    obtain ⟨store, trace⟩ := enterNode_of_answers answers enter
    rw [traced, if_neg Bool.false_ne_true] at trace
    exact ⟨[], .of_trace_eq (le_of_eq store.symm) trace⟩
  | @visited p c path es fs done r i o r' before budget decided visit ihBefore ihVisit
  | @brokenBelow p c path es fs done r i o r' before budget decided visit ihBefore ihVisit =>
    have progress : p.Progress host _ r := before.comesTo sound hk
    have child := progress.isChild budget decided
    have changes := (p.form.makes_next _).of_run decided
    have told : c.run.frame.traced = false := by
      rw [Run.Change.frame_eq changes, progress.traced_eq sound hk, traced]
    obtain ⟨parts, gains⟩ := ihBefore sound answers traced
    obtain ⟨started, turns⟩ := Run.Change.exists_gains changes adds
    obtain ⟨below, visits⟩ :=
      ihVisit (child.isSound sound hk) (child.debug_eq sound hk ▸ answers) told
    exact ⟨_, (gains.trans turns).trans visits⟩
  | @broken p path es done r e r' before decided ih =>
    obtain ⟨parts, gains⟩ := ih sound answers traced
    obtain ⟨started, turns⟩ :=
      Run.Change.exists_gains ((p.form.makes_next _).of_run decided) adds
    exact ⟨_, gains.trans turns⟩
  | @left p path es done r o r₁ r' before decided leave ih
  | @notLeft p path es done r o r₁ e r' before decided leave ih =>
    obtain ⟨le, trace⟩ := before.leaves sound hk answers decided leave
    rw [traced, if_neg Bool.false_ne_true] at trace
    obtain ⟨parts, gains⟩ := ih sound answers traced
    obtain ⟨started, turns⟩ := Run.Change.exists_gains (Form.changes_of_end decided) adds
    exact ⟨_, (gains.trans turns).trans (.of_trace_eq le trace)⟩

end Position

/-! ## Evaluations -/

section Evaluations

variable {q : Request} {root : NodeRef} {w : World σ} {o : Outcome} (adds : host.AddsBlocks)
  (tree : w.store.IsTree root) (answers : host.Answers q.options.debugTrace)
include adds tree answers

/-- An evaluation that is traced and ends with an outcome adds the block of its root. -/
theorem gains_evaluate (traced : q.traced = true)
    (returned : ((evaluate host q (.node root)).runOn w).1 = .ok o) :
    w.Gains [(root, o)] ((evaluate host q (.node root)).runOn w).2 := by
  have sound := Position.isSound_start q tree
  obtain ⟨es, itinerary⟩ := Position.exists_itinerary sound adds.keepsTrees []
  have added := itinerary.adds adds sound answers traced
  rw [Position.runOn_evaluate] at returned ⊢
  generalize (Position.start q root w).ending host = ended at added returned
  obtain ⟨result, r⟩ := ended
  cases returned
  exact added

/-- An evaluation that is not traced adds blocks if it starts others that are. -/
theorem exists_gains_evaluate (traced : q.traced = false) :
    ∃ parts, w.Gains parts ((evaluate host q (.node root)).runOn w).2 := by
  have sound := Position.isSound_start q tree
  obtain ⟨es, itinerary⟩ := Position.exists_itinerary sound adds.keepsTrees []
  exact itinerary.exists_gains adds sound answers traced

end Evaluations

end Fallback
