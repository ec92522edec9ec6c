import Fallback.Proofs.Chronicle
import Fallback.Proofs.Echo

/-!
The debug log beside the trace.

An evaluation has two observers: the trace counts a running depth of its own, and a debug record has
the number of nodes on the stack of the frame. Both are read off what happens, `Happening`: an event
is `Happening.event?` and its records are `Happening.records`, so the one can be told from the other.
The only record without an event is that of an operator that falls back from a fault. It is written
by the decision after the left operand was left, so while a node is open one such record may still
be awaited (`Stage.awaited`); with that taken into account `Position.Itinerary.log_eq` says what was
written up to any stage, also when the evaluation is broken off. What it has to know of a visit is
`Position.IsWatched`, and the visits that a visit makes are watched with it.

What the host may not do is said in `Host.LeavesRecords`: it neither writes to the trace or the log
nor takes an outcome back. The debug switch has to be on whenever it is asked, `Host.IsOn`.
-/
namespace Fallback

open Relation (ReflTransGen)

variable {σ : Type} {host : Host σ}

/-! ## What the host leaves alone -/

/-- What an evaluation has recorded is still recorded: the trace, the debug log and the results of
outcomes. -/
structure World.Leaves (w w' : World σ) : Prop where
  trace : w'.trace = w.trace
  log : w'.log = w.log
  outcome {o : Outcome} (kept : o.IsKept w.store) : o.IsKept w'.store

/-- The host leaves the records alone. -/
structure Host.LeavesRecords (host : Host σ) : Prop where
  run (r : RoutineRef) (args : List Value) (w : World σ) : w.Leaves (host.run r args w).2
  truth (o : ObjectRef) (w : World σ) : w.Leaves (host.truth o w).2

theorem Host.LeavesRecords.keepsTrace (hl : host.LeavesRecords) : host.KeepsTrace :=
  ⟨fun r args w => (hl.run r args w).trace, fun o w => (hl.truth o w).trace⟩

theorem World.Leaves.trans {u v w : World σ} (h : u.Leaves v) (k : v.Leaves w) : u.Leaves w :=
  ⟨k.trace.trans h.trace, k.log.trans h.log, fun kept => k.outcome (h.outcome kept)⟩

theorem Change.leaves {w w' : World σ} (h : Change host w w') (hl : host.LeavesRecords) :
    w.Leaves w' := by
  cases h with
  | store h => exact ⟨rfl, rfl, fun kept => kept.mono h.keeps.toRetains⟩
  | run r args => exact hl.run r args w
  | truth o => exact hl.truth o w

/-- Work that makes nothing but changes leaves the records alone. -/
theorem Work.Makes.leaves {α : Type} {x : Act σ α} (hx : x.Makes (Change host))
    (hl : host.LeavesRecords) (w : World σ) : w.Leaves (x.runOn w).2 := by
  have changes := hx w
  generalize (x.runOn w).2 = w' at changes
  induction changes with
  | refl => exact ⟨rfl, rfl, fun kept => kept⟩
  | tail _ step ih => exact ih.trans (step.leaves hl)

/-- What was recorded of an outcome stays recorded while an evaluation goes on. -/
theorem Run.Leads.isKept {r r' : Run σ} (h : r.Leads host r') (hl : host.LeavesRecords)
    {o : Outcome} (kept : o.IsKept r.world.store) : o.IsKept r'.world.store := by
  induction h with
  | refl => exact kept
  | tail _ step ih =>
    cases step with
    | place v o => exact ih.mono (Store.ages_attachPlace _ v o).toRetains
    | quiet step =>
      cases step with
      | frame | enter | exit => exact ih
      | change step =>
        cases step with
        | log record => exact ih
        | world h => exact (h.leaves hl).outcome ih

/-! ## The debug switch -/

/-- The switch is on whenever it is asked, and asking it changes nothing. -/
def Host.IsOn (host : Host σ) (v : Value) : Prop :=
  ∀ w, (truthTest host v).runOn w = (.ok true, w)

section Switch

variable {v : Value} {kind : String} {o : Outcome} {r r' : Run σ} {f : Frame} {e : FaultRef}

/-- With the switch on every record is written. -/
theorem Host.IsOn.runOn_debug (on : host.IsOn r.frame.debug) (record : Frame → LogRecord) :
    (debug host record).runOn r =
      (.ok (), { r with world := { r.world with log := r.world.log.push (record r.frame) } }) := by
  rw [Fallback.runOn_debug, on]
  rfl

theorem Host.IsOn.of_push (on : host.IsOn r.frame.debug) (push : r.frame.push v = .ok f) :
    host.IsOn f.debug := by
  rwa [(Frame.settings_of_push push).2.1]

theorem enterNode_log (on : host.IsOn r.frame.debug)
    (h : (enterNode host v).runOn r = (.ok kind, r')) :
    r'.world.log = r.world.log.push (.enter r.frame.depth kind) := by
  have push := (enterNode_ok h).2.1
  generalize r'.frame = f at push
  have opened : host.IsOn (⟨f, r.world⟩ : Run σ).frame.debug := on.of_push push
  have depth : f.depth - 1 = r.frame.depth := by
    rw [(Frame.depth_of_push push).1, Nat.add_sub_cancel]
  rw [enterNode, Work.runOn_bind_ok (runOn_openNode_of_push push),
    Work.runOn_bind_ok (Eval.runOn_store _), Work.runOn_bind_ok (opened.runOn_debug _)] at h
  obtain ⟨u, r₂, observed, h⟩ := Work.runOn_bind_eq_ok.1 h
  cases h
  rw [Eval.observe, Work.runOn_modify] at observed
  rw [← depth]
  split at observed <;>
  · cases observed
    rfl

/-- Nothing is written of a node that cannot be entered. -/
theorem enterNode_error_log (on : host.IsOn r.frame.debug)
    (h : (enterNode host v).runOn r = (.error e, r')) : r'.world.log = r.world.log := by
  obtain opened | ⟨f, push, failed, -⟩ := enterNode_eq_error_iff.1 h
  · obtain ⟨refusal, -, refused⟩ := openNode_eq_error opened
    cases refused
    rfl
  · rw [on.of_push push] at failed
    cases failed

/-- With the switch on a node that is open is left. -/
theorem Host.IsOn.runOn_leaveNode (on : host.IsOn r.frame.debug) (push : f.push v = .ok r.frame) :
    (leaveNode host v kind o).runOn r = (.ok (), ⟨f,
      { r.noted v o with log := r.world.log.push (.exit f.depth kind o.isRaised) }⟩) := by
  have noted : host.IsOn (⟨r.frame, r.noted v o⟩ : Run σ).frame.debug := on
  have depth : f.depth = r.frame.depth - 1 := by
    rw [(Frame.depth_of_push push).1, Nat.add_sub_cancel]
  rw [Fallback.runOn_leaveNode, Work.runOn_bind_ok (noted.runOn_debug _), depth]
  exact runOn_closeNode_of_pop (Frame.pop_of_push push)

end Switch

/-! ## What decisions write -/

/-- The log is what it was. -/
def Run.Mute (r r' : Run σ) : Prop :=
  r'.world.log = r.world.log

theorem Run.log_eq_of_mute {r r' : Run σ} (h : ReflTransGen Run.Mute r r') :
    r'.world.log = r.world.log := by
  induction h with
  | refl => rfl
  | tail _ step ih => exact step.trans ih

section Decisions

open Work

variable {f : Form} {os : List Outcome} {r r' : Run σ} {o : Outcome} (hl : host.LeavesRecords)

include hl

theorem mute_act {α : Type} {x : Act σ α} (hx : x.Makes (Change host)) :
    (Eval.ofAct x).Makes Run.Mute :=
  fun r => .single (hx.leaves hl r.world).log

theorem mute_nextOnTruth (v : Value) (onTrue onFalse : Move) :
    (nextOnTruth host v onTrue onFalse).Makes Run.Mute := by
  refine (mute_act hl (composed_truthOrFailure v).makes).bind fun tested => ?_
  cases tested with
  | error e => exact (mute_act hl (Act.composed_raised _).makes).bind fun _ => makes_pure _
  | ok b => exact makes_pure _

/-- The operator falls back from the fault that its left operand has raised. -/
def Form.fallsBack : Form → List Outcome → Bool
  | .fallback .onFault _ _, [o] => o.isRaised
  | _, _ => false

omit hl in
theorem Form.fallsBack_raised (lhs rhs : Value) (self : OutcomeRef) (e : Value) :
    (Form.fallback .onFault lhs rhs).fallsBack [⟨self, .raised e⟩] = true := rfl

omit hl in
theorem Form.exists_of_catches (h : f.kind = .fallback .onFault) :
    ∃ lhs rhs, f = .fallback .onFault lhs rhs := by
  cases f with
  | fallback op lhs rhs =>
    cases h
    exact ⟨lhs, rhs, rfl⟩
  | _ => cases h

/-- A decision writes nothing, unless the operator falls back from a fault. -/
theorem Form.mute_next (quiet : f.fallsBack os = false) : (f.next host os).Makes Run.Mute := by
  cases f with
  | literal v => exact (mute_act hl (Act.composed_success v).makes).bind fun _ => makes_pure _
  | reference name =>
    refine Makes.bind ?_ fun _ => makes_pure _
    refine Makes.bind (R := Run.Mute) (makes_get.bind fun _ => makes_pure _) fun frame => ?_
    exact mute_act hl (composed_lookup frame.vars name).makes
  | raise exception =>
    exact (mute_act hl (composed_evalRaise exception).makes).bind fun _ => makes_pure _
  | call callee args =>
    unfold Form.next nextOfCall
    dsimp only
    split
    · exact makes_pure _
    · split
      · exact makes_pure _
      · split
        · exact makes_pure _
        · exact (mute_act hl (composed_callValue _ _).makes).bind fun _ => makes_pure _
  | fallback op lhs rhs =>
    obtain ⟨m, settled, -⟩ | ⟨self, w, rfl, rfl, asks⟩ | ⟨self, e, rfl, rfl, -⟩ :=
      nextOfFallback_cases host op lhs rhs os
    · rw [Form.next, settled]
      exact makes_pure _
    · rw [Form.next, asks]
      exact mute_nextOnTruth hl _ _ _
    · rw [Form.fallsBack_raised] at quiet
      cases quiet
  | ternary condition thenBranch elseBranch =>
    obtain ⟨m, settled, -⟩ | ⟨self, w, rfl, asks⟩ :=
      nextOfTernary_cases host condition thenBranch elseBranch os
    · rw [Form.next, settled]
      exact makes_pure _
    · rw [Form.next, asks]
      exact mute_nextOnTruth hl _ _ _

/-- What a decision writes with the switch on. -/
theorem Form.log_next (on : host.IsOn r.frame.debug) :
    ((f.next host os).runOn r).2.world.log.toList = r.world.log.toList ++
      if f.fallsBack os then [.fallingBack r.frame.depth] else [] := by
  cases falls : f.fallsBack os with
  | false =>
    rw [Run.log_eq_of_mute (Form.mute_next hl falls r), if_neg Bool.false_ne_true, List.append_nil]
  | true =>
    unfold Form.fallsBack at falls
    split at falls
    · next lhs rhs o =>
      obtain ⟨self, v | e⟩ := o
      · cases falls
      · have decides : ((Form.fallback .onFault lhs rhs).next host [⟨self, .raised e⟩]).runOn r =
            (do debug host fun f => .fallingBack f.depth
                return .visit 1 rhs : Eval σ Move).runOn r := rfl
        rw [decides, Work.runOn_bind_ok (on.runOn_debug _), if_pos rfl]
        exact Array.toList_push
    · cases falls

end Decisions

/-! ## Outcomes that decisions make -/

section Outcomes

variable {r r' : Run σ} {o : Outcome}

/-- The outcome that the work ends with is there, with its result. -/
def Act.MakesKept (x : Act σ Outcome) : Prop :=
  ∀ w o w', x.runOn w = (.ok o, w') → o.IsKept w'.store

theorem makesKept_success (v : Value) : (Act.success v : Act σ Outcome).MakesKept := by
  intro w o w' h
  cases h
  exact Outcome.isKept_addOutcome _ _

theorem makesKept_raised (e : Value) : (Act.raised e : Act σ Outcome).MakesKept := by
  intro w o w' h
  cases h
  exact Outcome.isKept_addOutcome _ _

theorem Act.MakesKept.bind {α : Type} {x : Act σ α} {f : α → Act σ Outcome}
    (hf : ∀ a, (f a).MakesKept) : (x >>= f).MakesKept := by
  intro w o w' h
  obtain ⟨a, w₁, -, h⟩ := Work.runOn_bind_eq_ok.1 h
  exact hf a _ _ _ h

theorem makesKept_raisedFault (x : Attempt FaultRef) :
    (Act.raisedFault x : Act σ Outcome).MakesKept :=
  .bind fun _ => makesKept_raised _

theorem makesKept_lookup (vars : Environment) (name : Value) :
    (lookup vars name : Act σ Outcome).MakesKept := by
  refine .bind fun _ => .bind fun s => ?_
  dsimp only
  split
  · exact makesKept_success _
  · exact makesKept_raisedFault _

theorem makesKept_callValue (f : Value) (vs : List Value) : (callValue host f vs).MakesKept := by
  refine .bind fun s => ?_
  split
  · refine .bind fun called => ?_
    split
    · exact makesKept_success _
    · refine .bind fun s => ?_
      split
      · intro w o w' h
        cases h
      · exact makesKept_raisedFault _
  · exact .bind fun _ => makesKept_raisedFault _

theorem makesKept_evalRaise (exception : Value) : (evalRaise host exception).MakesKept := by
  cases exception with
  | fault x =>
    refine .bind fun s => ?_
    split
    · exact .bind fun _ => makesKept_raised _
    · exact makesKept_raised _
  | _ => exact makesKept_raised _

theorem isKept_of_make {x : Act σ Outcome} (hx : x.MakesKept)
    (h : (do return .finish (← Eval.ofAct x) : Eval σ Move).runOn r = (.ok (.finish o), r')) :
    o.IsKept r'.world.store :=
  hx _ _ _ (runOn_make_eq_ok.1 h).1

theorem isKept_of_nextOnTruth {v : Value} {onTrue onFalse : Move} (ifTrue : onTrue ≠ .finish o)
    (ifFalse : onFalse ≠ .finish o)
    (h : (nextOnTruth host v onTrue onFalse).runOn r = (.ok (.finish o), r')) :
    o.IsKept r'.world.store := by
  obtain ⟨tested, r₁, -, h⟩ := Work.runOn_bind_eq_ok.1 h
  cases tested with
  | error e => exact isKept_of_make (makesKept_raised _) h
  | ok b =>
    cases b with
    | true =>
      cases h
      exact absurd rfl ifTrue
    | false =>
      cases h
      exact absurd rfl ifFalse

/-- The outcome of its own that a rule finishes with is there, with its result. -/
theorem Form.isKept_of_finish {f : Form} {os : List Outcome}
    (h : (f.next host os).runOn r = (.ok (.finish o), r')) : o.IsKept r'.world.store := by
  cases f with
  | literal v => exact isKept_of_make (makesKept_success v) h
  | reference name =>
    exact isKept_of_make (x := lookup r.frame.vars name) (makesKept_lookup _ _) h
  | raise exception => exact isKept_of_make (makesKept_evalRaise exception) h
  | call callee args =>
    unfold Form.next nextOfCall at h
    dsimp only at h
    split at h
    · cases h
    · split at h
      · cases h
      · split at h
        · cases h
        · exact isKept_of_make (makesKept_callValue _ _) h
  | fallback op lhs rhs =>
    obtain ⟨m, settled, moves⟩ | ⟨self, w, rfl, rfl, asks⟩ | ⟨self, e, rfl, rfl, falls⟩ :=
      nextOfFallback_cases host op lhs rhs os
    · rw [Form.next, settled] at h
      cases h
      exact absurd rfl (moves o)
    · rw [Form.next, asks] at h
      exact isKept_of_nextOnTruth (by simp) (by simp) h
    · rw [Form.next, falls] at h
      obtain ⟨u, r₁, -, h⟩ := Work.runOn_bind_eq_ok.1 h
      cases h
  | ternary condition thenBranch elseBranch =>
    obtain ⟨m, settled, moves⟩ | ⟨self, w, rfl, asks⟩ :=
      nextOfTernary_cases host condition thenBranch elseBranch os
    · rw [Form.next, settled] at h
      cases h
      exact absurd rfl (moves o)
    · rw [Form.next, asks] at h
      exact isKept_of_nextOnTruth (by simp) (by simp) h

end Outcomes

/-! ## Events and records of happenings -/

namespace Happening

/-- The event of a happening; its depth is how far down it happens. -/
def event? : Happening → Option TraceEvent
  | .enter path n => some (.enter (.node n) path.length)
  | .invoke _ _ _ => none
  | .exit path n o => some (.exit (.node n) path.length o.toValue)

/-- The record that an operator falls back, once its left operand was left with an outcome. Of which
paths it is true that a left operand of an operator that catches faults stands there, is told. -/
def fallback (catches : List Nat → Bool) (path : List Nat) (o : Outcome) : List LogRecord :=
  if o.isRaised && catches path then [.fallingBack path.length] else []

/-- The records of a happening, and of what an operator makes of it. -/
def records (s : Store) (catches : List Nat → Bool) : Happening → List LogRecord
  | .enter path n => [.enter path.length (s.typeName (.node n))]
  | .invoke _ _ _ => []
  | .exit path n o =>
    .exit path.length (s.typeName (.node n)) o.isRaised :: fallback catches path o

/-- The paths to the nodes that are left, in turn. -/
def left (es : List Happening) : List (List Nat) :=
  es.filterMap fun
    | .exit path _ _ => some path
    | .enter _ _ | .invoke _ _ _ => none

theorem mem_left {es : List Happening} {path : List Nat} :
    path ∈ left es ↔ ∃ n o, .exit path n o ∈ es := by
  rw [left, List.mem_filterMap]
  constructor
  · rintro ⟨h, mem, same⟩
    cases h with
    | exit path' n o =>
      cases same
      exact ⟨n, o, mem⟩
    | enter | invoke => cases same
  · rintro ⟨n, o, mem⟩
    exact ⟨_, mem, rfl⟩

@[simp] theorem left_append (es fs : List Happening) : left (es ++ fs) = left es ++ left fs :=
  List.filterMap_append

end Happening

section Closing

variable (s : Store) (f : Form) (path : List Nat) (os : List Outcome)

@[simp] theorem Form.left_invocations : Happening.left (f.invocations s path os) = [] := by
  unfold invocations
  cases f.invocation? s os <;> rfl

@[simp] theorem Form.events_invocations :
    (f.invocations s path os).filterMap Happening.event? = [] := by
  unfold invocations
  cases f.invocation? s os <;> rfl

@[simp] theorem Form.records_invocations (t : Store) (catches : List Nat → Bool) :
    (f.invocations s path os).flatMap (Happening.records t catches) = [] := by
  unfold invocations
  cases f.invocation? s os <;> rfl

end Closing

/-- The text of an event as a debug record. The record of an exit has the name of the kind of the
outcome. -/
def Store.logText (s : Store) : TraceEvent → String
  | .enter v depth => LogRecord.indent depth.toNat ++ "enter " ++ s.typeName v
  | .exit v depth outcome =>
    LogRecord.indent depth.toNat ++ "exit " ++ s.typeName v ++ " -> " ++ s.typeName outcome

/-- The record is not of an operator that falls back. -/
def LogRecord.isObservation : LogRecord → Bool
  | .enter _ _ | .exit _ _ _ => true
  | .fallingBack _ => false

theorem Outcome.IsKept.typeName_eq {s : Store} {o : Outcome} (h : o.IsKept s) :
    s.typeName o.toValue = if o.isRaised then "Raised" else "Success" := by
  rw [toValue, Store.typeName, h.2, isRaised]
  cases o.result <;> rfl

theorem LogRecord.message_enter (depth : Nat) (kind : String) :
    message (.enter depth kind) = indent depth ++ "enter " ++ kind := rfl

theorem LogRecord.message_exit (depth : Nat) (kind : String) (raised : Bool) :
    message (.exit depth kind raised) =
      indent depth ++ "exit " ++ kind ++ " -> " ++ (if raised then "Raised" else "Success") := rfl

/-- The records of a happening, but for that of an operator that falls back, say what its event
does. -/
theorem Happening.message_records {s : Store} {catches : List Nat → Bool} {x : Happening}
    (kept : ∀ path n o, x = .exit path n o → o.IsKept s) :
    ((x.records s catches).filter (·.isObservation)).map LogRecord.message =
      x.event?.toList.map s.logText := by
  cases x with
  | enter path n =>
    have same : LogRecord.message (.enter path.length (s.typeName (.node n))) =
        s.logText (.enter (.node n) path.length) := by
      rw [LogRecord.message_enter, Store.logText, Int.toNat_natCast]
    exact congrArg (fun text => [text]) same
  | invoke path callee args => rfl
  | exit path n o =>
    have falls : (fallback catches path o).filter (·.isObservation) = [] := by
      unfold fallback
      split <;> rfl
    have same : LogRecord.message (.exit path.length (s.typeName (.node n)) o.isRaised) =
        s.logText (.exit (.node n) path.length o.toValue) := by
      rw [LogRecord.message_exit, Store.logText, Int.toNat_natCast, (kept path n o rfl).typeName_eq]
    rw [records, List.filter_cons_of_pos rfl, falls]
    exact congrArg (fun text => [text]) same

/-- The records besides those of operators that fall back are those of the events. -/
theorem Happening.message_flatMap_records {s : Store} {catches : List Nat → Bool}
    {es : List Happening} (kept : ∀ {path n o}, .exit path n o ∈ es → o.IsKept s) :
    ((es.flatMap (records s catches)).filter (·.isObservation)).map LogRecord.message =
      (es.filterMap event?).map s.logText := by
  induction es with
  | nil => rfl
  | cons x es ih =>
    have here := @message_records s catches x fun path n o same =>
      kept (List.mem_cons.2 (.inl same.symm))
    rw [List.flatMap_cons, List.filter_append, List.map_append, here,
      ih fun mem => kept (List.mem_cons_of_mem _ mem), List.filterMap_cons]
    cases x.event? <;> rfl

/-- A node keeps the name of its kind. -/
theorem Store.typeName_of_le {s t : Store} (h : s ≤ t) {n : NodeRef}
    (made : n.index < s.nodes.size) : t.typeName (.node n) = s.typeName (.node n) :=
  congrArg (·.kind.name) (form_eq_of_le h made)

/-! ## Stages -/

/-- The running depth at a stage, when the node stands so far down. -/
def Stage.DepthAt (depth : Int) (level : Nat) : Stage σ → Prop
  | .isOpen _ _ => depth = level + 1
  | .ended (.ok _, _) => depth = level
  | .ended (.error _, _) => True

/-- The record that an operator falls back which is still to be written: by the node, if it is open,
or by the node above it. -/
def Stage.awaited (catches : List Nat → Bool) (path : List Nat) : Stage σ → List LogRecord
  | .isOpen done _ =>
    match done.getLast? with
    | some (i, o) => Happening.fallback catches (path ++ [i]) o
    | none => []
  | .ended (.ok o, _) => Happening.fallback catches path o
  | .ended (.error _, _) => []

namespace Position

variable {p c : Position σ} {path way : List Nat} {es : List Happening} {st : Stage σ}
  {done : List (Nat × Outcome)} {q : Except FaultRef Outcome × Run σ} {o : Outcome}
  {r r₁ r' : Run σ} {catches : List Nat → Bool}

namespace Itinerary

/-- The events of a visit are those of its happenings. -/
theorem events_eq (h : p.Itinerary host path es st) :
    Notice.events path.length (Happening.notices es) = es.filterMap Happening.event? ∧
      st.DepthAt (Notice.depthAfterAll path.length (Happening.notices es)) path.length := by
  induction h with
  | refused => exact ⟨rfl, trivial⟩
  | entered => exact ⟨rfl, rfl⟩
  | @visited p c path es fs done r i o r' before budget decided visit ih ihVisit
  | @brokenBelow p c path es fs done r i o r' before budget decided visit ih ihVisit =>
    have level : ((path ++ [i]).length : Int) = path.length + 1 := by simp
    have start : Notice.depthAfterAll path.length (Happening.notices es) =
        ((path ++ [i]).length : Int) := ih.2.trans level.symm
    rw [Happening.notices_append, Notice.events_append, Notice.depthAfterAll_append, start, ih.1,
      ihVisit.1, List.filterMap_append]
    refine ⟨rfl, ?_⟩
    first
    | exact ihVisit.2.trans level
    | trivial
  | broken before decided ih =>
    rw [Happening.notices_append, Form.notices_invocations, List.append_nil, List.filterMap_append,
      Form.events_invocations, List.append_nil]
    exact ⟨ih.1, trivial⟩
  | @left p path es done r o r₁ r' before decided leave ih
  | @notLeft p path es done r o r₁ e r' before decided leave ih =>
    have start : Notice.depthAfterAll path.length (Happening.notices es) = path.length + 1 := ih.2
    have level : (path.length + 1 : Int) - 1 = path.length := Int.add_sub_cancel _ _
    have exit : Happening.notices [.exit path p.node o] = [.exit p.value o.toValue] := rfl
    rw [Happening.notices_append, Happening.notices_append, Form.notices_invocations,
      List.nil_append, exit, Notice.events_append, Notice.depthAfterAll_append, start, ih.1,
      List.filterMap_append, List.filterMap_append, Form.events_invocations, List.nil_append]
    refine ⟨?_, ?_⟩
    · rw [Notice.events_cons, Notice.event, level]
      rfl
    · first
      | exact level
      | trivial

/-- A node is left at most once. -/
theorem nodup_left (h : p.Itinerary host path es st) : (Happening.left es).Nodup := by
  induction h with
  | refused | entered => exact List.nodup_nil
  | @visited p c path es fs done r i o r' before budget decided visit ih ihVisit
  | @brokenBelow p c path es fs done r i o r' before budget decided visit ih ihVisit =>
    rw [Happening.left_append]
    refine List.nodup_append.2 ⟨ih, ihVisit, fun way here way' there same => ?_⟩
    subst same
    obtain ⟨n, o, here⟩ := Happening.mem_left.1 here
    obtain ⟨n', o', there⟩ := Happening.mem_left.1 there
    have below : path ++ [i] <+: way := visit.isBelow there
    exact before.not_isBelow_of_isOpen decided here below
  | broken before decided ih =>
    rw [Happening.left_append, Form.left_invocations, List.append_nil]
    exact ih
  | @left p path es done r o r₁ r' before decided leave ih
  | @notLeft p path es done r o r₁ e r' before decided leave ih =>
    rw [Happening.left_append, Happening.left_append, Form.left_invocations, List.nil_append]
    refine List.nodup_append.2
      ⟨ih, List.pairwise_singleton _ path, fun way here way' there same => ?_⟩
    subst same
    obtain rfl := List.mem_singleton.1 there
    obtain ⟨n, o, here⟩ := Happening.mem_left.1 here
    obtain same | ⟨i, -, below⟩ := before.mem_of_isOpen here
    · cases same
    · exact not_concat_isPrefix _ _ below

theorem leads (h : p.Itinerary host path es (.ended q)) (sound : p.IsSound)
    (hk : host.KeepsTrees) : p.run.Leads host q.2 := by
  have ended : p.ending host = q := h.comesTo sound hk
  rw [← ended]
  exact leads_end host p

/-- What was left with an outcome has the outcome kept. -/
theorem isKept (h : p.Itinerary host path es st) (sound : p.IsSound) (hk : host.KeepsTrees)
    (hl : host.LeavesRecords) :
    ∀ {way n o}, .exit way n o ∈ es → o.IsKept st.run.world.store := by
  intro way n o mem
  induction h generalizing way n o with
  | refused => cases mem
  | entered => cases List.mem_singleton.1 mem
  | @visited p c path es fs done r i o r' before budget decided visit ih ihVisit
  | @brokenBelow p c path es fs done r i o r' before budget decided visit ih ihVisit =>
    have progress : p.Progress host _ r := before.comesTo sound hk
    have child := progress.isChild budget decided
    obtain here | below := List.mem_append.1 mem
    · have changes := (p.form.makes_next _).of_run decided
      have leads := visit.leads (child.isSound sound hk) hk
      exact leads.isKept hl (Run.Leads.isKept (Run.Change.leads changes) hl (ih sound here))
    · exact ihVisit (child.isSound sound hk) below
  | @broken p path es done r e r' before decided ih =>
    obtain here | below := List.mem_append.1 mem
    · have changes := (p.form.makes_next _).of_run decided
      exact Run.Leads.isKept (Run.Change.leads changes) hl (ih sound here)
    · obtain ⟨callee, args, same⟩ := Form.eq_invoke_of_invocations below
      cases same
  | @left p path es done r o' r₁ r' before decided leave ih
  | @notLeft p path es done r o' r₁ e r' before decided leave ih =>
    have changes := Form.changes_of_end decided
    have leads : r₁.Leads host r' := (steps_leaveNode _ _ o').of_run leave
    have earlier {way : List Nat} {n : NodeRef} {o : Outcome} (here : .exit way n o ∈ es) :
        o.IsKept r₁.world.store :=
      Run.Leads.isKept (Run.Change.leads changes) hl (ih sound here)
    refine leads.isKept hl ?_
    obtain here | last := List.mem_append.1 mem
    · exact earlier here
    · obtain below | last := List.mem_append.1 last
      · obtain ⟨callee, args, same⟩ := Form.eq_invoke_of_invocations below
        cases same
      · cases List.mem_singleton.1 last
        obtain kept | finished := decided
        · obtain ⟨⟨i, _⟩, ended, rfl⟩ :=
            List.mem_map.1 (List.mem_of_getLast? (Form.getLast?_of_keep kept))
          obtain ⟨m, -, exit⟩ := before.exit_mem_of_done ended
          exact earlier exit
        · exact Form.isKept_of_finish finished

end Itinerary

/-! ## The log of a visit -/

/-- It is told rightly, of all paths below the node, at which of them the left operand of an operator
that catches faults stands. -/
def Tells (p : Position σ) (path : List Nat) (catches : List Nat → Bool) : Prop :=
  ∀ more n i, p.run.world.store.nodeAt? p.node more = some n →
    catches (path ++ more ++ [i]) =
      (i == 0 && decide ((p.run.world.store.form n).kind = .fallback .onFault))

theorem Tells.child (tells : p.Tells path catches) (sound : p.IsSound) {i : Nat}
    (le : p.run.world.store ≤ c.run.world.store)
    (operand : p.form.operands[i]? = some (.node c.node)) : c.Tells (path ++ [i]) catches := by
  intro more n j there
  have tree : p.run.world.store.IsTree c.node :=
    sound.tree.operand (List.mem_of_getElem? operand)
  rw [Store.nodeAt?_of_le le tree] at there
  have above : p.run.world.store.nodeAt? p.node (i :: more) = some n := by
    have operand : (p.run.world.store.form p.node).operands[i]? = some (.node c.node) := operand
    rw [Store.nodeAt?, operand]
    exact there
  have told := tells (i :: more) n j above
  rw [Store.form_eq_of_le le (tree.nodeAt? there).whole.made, ← told]
  simp

/-- The log of a visit can be told from the path to its node: the debug switch is on, as many nodes
are open as the path is long, and the operands of operators that catch faults are told rightly. -/
structure IsWatched (host : Host σ) (p : Position σ) (path : List Nat)
    (catches : List Nat → Bool) : Prop where
  sound : p.IsSound
  on : host.IsOn p.run.frame.debug
  depth : p.run.frame.depth = path.length
  tells : p.Tells path catches

namespace IsWatched

/-- So can the log of every visit that it makes. -/
theorem child (h : p.IsWatched host path catches) (hk : host.KeepsTrees)
    (before : p.Itinerary host path es (.isOpen done r)) {i : Nat}
    (budget : c.budget + 1 = p.budget)
    (decided : (p.form.next host (done.map Prod.snd)).runOn r = (.ok (.visit i c.value), c.run)) :
    c.IsWatched host (path ++ [i]) catches := by
  have progress : p.Progress host _ r := before.comesTo h.sound hk
  have changes := (p.form.makes_next _).of_run decided
  have frame := Run.Change.frame_eq changes
  obtain ⟨push, le⟩ := progress.push_eq h.sound hk
  refine ⟨(progress.isChild budget decided).isSound h.sound hk, ?_, ?_, ?_⟩
  · rw [frame]
    exact h.on.of_push push
  · rw [frame, (Frame.depth_of_push push).1, h.depth, List.length_append, List.length_singleton]
  · exact h.tells.child h.sound (le_trans le (Run.Change.le_of_reflTransGen changes hk))
      (Form.operand_of_visit decided)

/-- The record that is awaited while a node is open is what its next decision writes. -/
theorem awaited_eq (h : p.IsWatched host path catches)
    (stage : p.Itinerary host path es (.isOpen done r)) (depth : r.frame.depth = path.length + 1) :
    (Stage.isOpen done r).awaited catches path =
      if p.form.fallsBack (done.map Prod.snd) then [.fallingBack r.frame.depth] else [] := by
  obtain rfl | ⟨front, ⟨i, o⟩, rfl⟩ := List.eq_nil_or_concat done
  · rw [if_neg]
    · rfl
    · cases p.form <;> simp [Form.fallsBack]
  · rw [List.concat_eq_append] at stage ⊢
    have told := h.tells [] p.node i rfl
    rw [List.append_nil] at told
    have length : (path ++ [i]).length = r.frame.depth := by
      rw [depth, List.length_append, List.length_singleton]
    simp only [Stage.awaited, List.getLast?_concat, Happening.fallback, told, length]
    congr 2
    by_cases catching : (p.run.world.store.form p.node).kind = .fallback .onFault
    · obtain ⟨lhs, rhs, form⟩ : ∃ lhs rhs, p.form = .fallback .onFault lhs rhs :=
        Form.exists_of_catches catching
      have slots := stage.slots.other (by rw [form]; rintro ⟨_, _, _, same⟩; cases same)
      rw [List.map_append, List.length_append, List.length_map, List.map_singleton,
        List.length_singleton, List.range_succ] at slots
      have slot : i = front.length := by simpa using (List.append_inj' slots rfl).2
      rw [form, decide_eq_true catching, slot]
      cases front with
      | nil => simp [Form.fallsBack]
      | cons x front =>
        cases front <;> simp [Form.fallsBack]
    · have other : p.form.fallsBack ((front ++ [(i, o)]).map Prod.snd) = false := by
        unfold Form.fallsBack
        split
        · next form _ => exact absurd (congrArg Form.kind form) catching
        · rfl
      rw [other, decide_eq_false catching]
      simp

/-- A decision writes what is awaited. -/
theorem log_decided (h : p.IsWatched host path catches) (hk : host.KeepsTrees)
    (hl : host.LeavesRecords) (stage : p.Itinerary host path es (.isOpen done r)) :
    ((p.form.next host (done.map Prod.snd)).runOn r).2.world.log.toList =
      (Stage.isOpen done r).run.world.log.toList ++ (Stage.isOpen done r).awaited catches path := by
  have progress : p.Progress host _ r := stage.comesTo h.sound hk
  have push := (progress.push_eq h.sound hk).1
  have depth : r.frame.depth = path.length + 1 := by
    rw [(Frame.depth_of_push push).1, h.depth]
  rw [h.awaited_eq stage depth]
  exact Form.log_next hl (h.on.of_push push)

/-- Leaving a node writes one record and is never broken off. -/
theorem log_leave (h : p.IsWatched host path catches) (hk : host.KeepsTrees)
    (stage : p.Itinerary host path es (.isOpen done r))
    (decided : (p.form.next host (done.map Prod.snd)).runOn r = (.ok (.keep o), r₁) ∨
      (p.form.next host (done.map Prod.snd)).runOn r = (.ok (.finish o), r₁))
    {result : Except FaultRef Unit}
    (leave : (leaveNode host p.value p.kind o).runOn r₁ = (result, r')) :
    result = .ok () ∧
      r'.world.log.toList = r₁.world.log.toList ++ [.exit path.length p.kind o.isRaised] := by
  have progress : p.Progress host _ r := stage.comesTo h.sound hk
  have frame := Run.Change.frame_eq (Form.changes_of_end decided)
  have push : p.run.frame.push p.value = .ok r₁.frame := by
    rw [frame, (progress.push_eq h.sound hk).1]
  rw [(h.on.of_push push).runOn_leaveNode push, h.depth] at leave
  cases leave
  exact ⟨rfl, Array.toList_push⟩

end IsWatched

/-- What was written up to a stage, and what is still awaited then, are the records of what has
happened. -/
theorem Itinerary.log_eq (h : p.Itinerary host path es st) (watched : p.IsWatched host path catches)
    (hk : host.KeepsTrees) (hl : host.LeavesRecords) {s : Store}
    (later : st.run.world.store ≤ s) :
    st.run.world.log.toList ++ st.awaited catches path =
      p.run.world.log.toList ++ es.flatMap (Happening.records s catches) := by
  induction h with
  | refused enter =>
    rw [Stage.awaited, List.flatMap_nil]
    exact congrArg (·.toList ++ []) (enterNode_error_log watched.on enter)
  | @entered p path r budget enter =>
    have le : p.run.world.store ≤ s := le_trans ((enterNode_ok enter).2.2 hk) later
    have kind : s.typeName (.node p.node) = p.kind :=
      Store.typeName_of_le le watched.sound.tree.whole.made
    rw [Stage.awaited, List.flatMap_singleton, Happening.records, kind, ← watched.depth,
      ← Array.toList_push, ← enterNode_log watched.on enter]
    exact List.append_nil _
  | @visited p c path es fs done r i o r' before budget decided visit ih ihVisit
  | @brokenBelow p c path es fs done r i o r' before budget decided visit ih ihVisit =>
    have below := watched.child hk before budget decided
    have changes := (p.form.makes_next _).of_run decided
    have down : r.world.store ≤ c.run.world.store := Run.Change.le_of_reflTransGen changes hk
    have across : c.run.world.store ≤ r'.world.store := (visit.leads below.sound hk).le hk
    have wrote := watched.log_decided hk hl before
    rw [decided, ih watched (le_trans down (le_trans across later))] at wrote
    rw [List.flatMap_append, ← List.append_assoc, ← wrote, ← ihVisit below later]
    first
    | rfl
    | rw [Stage.awaited, List.getLast?_concat]; rfl
  | @broken p path es done r e r' before decided ih =>
    have changes := (p.form.makes_next _).of_run decided
    have down : r.world.store ≤ s := le_trans (Run.Change.le_of_reflTransGen changes hk) later
    have wrote := watched.log_decided hk hl before
    rw [decided, ih watched down] at wrote
    rw [List.flatMap_append, Form.records_invocations, List.append_nil, Stage.awaited,
      List.append_nil, ← wrote]
    rfl
  | @left p path es done r o r₁ r' before decided leave ih =>
    have progress : p.Progress host _ r := before.comesTo watched.sound hk
    have le := (progress.push_eq watched.sound hk).2
    have changes := Form.changes_of_end decided
    have down : r.world.store ≤ s := le_trans (Run.Change.le_of_reflTransGen changes hk)
      (le_trans ((leaveNode_ok leave).2 hk) later)
    have kind : s.typeName (.node p.node) = p.kind :=
      Store.typeName_of_le (le_trans le down) watched.sound.tree.whole.made
    have wrote := watched.log_decided hk hl before
    have ends : ((p.form.next host (done.map Prod.snd)).runOn r).2 = r₁ := by
      obtain kept | finished := decided
      · rw [kept]
      · rw [finished]
    rw [ends, ih watched down] at wrote
    have exit := (watched.log_leave hk before decided leave).2
    rw [List.flatMap_append, List.flatMap_append, Form.records_invocations, List.nil_append,
      ← List.append_assoc, ← wrote, List.flatMap_singleton, Happening.records, kind]
    show r'.world.log.toList ++ Happening.fallback catches path o = _
    rw [exit, List.append_assoc]
    rfl
  | notLeft before decided leave ih =>
    cases (watched.log_leave hk before decided leave).1

end Position

/-! ## The whole evaluation -/

/-- The left operand of an operator that catches faults stands on the path. -/
def Store.catchesAt (s : Store) (root : NodeRef) (path : List Nat) : Bool :=
  path.getLast? == some 0 &&
    (s.nodeAt? root path.dropLast).any fun n => (s.form n).kind = .fallback .onFault

theorem Position.tells_start (q : Request) (root : NodeRef) (w : World σ) :
    (start q root w).Tells [] (w.store.catchesAt root) := by
  intro more n i there
  have there : w.store.nodeAt? root more = some n := there
  rw [List.nil_append, Store.catchesAt, List.getLast?_concat, List.dropLast_concat, there]
  rfl

/-- With the debug switch on and a trace that has seen nothing, the log has a record for every event
and says the same as the event. Beyond these there is one record, right after the exit, for every
left operand that was left with a fault under an operator that catches faults; its number is how far
down that operand stands. A node is left at most once on a path, and no operand is entered before
those on its left were left. It does not matter how the evaluation ends. -/
theorem runOn_evaluate_logged (hk : host.KeepsTrees) (hl : host.LeavesRecords) {q : Request}
    (on : host.IsOn q.options.debugTrace) {root : NodeRef} {w w' : World σ}
    {result : Except FaultRef Outcome} (tree : w.store.IsTree root) (traced : q.traced = true)
    (fresh : w.trace = .empty)
    (h : (evaluate host q (.node root)).runOn w = (result, w')) :
    ∃ es records,
      (Position.start q root w).Chronicle host es ∧ (Happening.left es).Nodup ∧
      w'.trace.events.toList = es.filterMap Happening.event? ∧
      w'.log.toList = w.log.toList ++ records ∧
      records = es.flatMap (Happening.records w'.store (w.store.catchesAt root)) ∧
      (records.filter (·.isObservation)).map LogRecord.message =
        w'.trace.events.toList.map w'.store.logText := by
  have sound := Position.isSound_start q tree
  obtain ⟨es, itinerary⟩ := Position.exists_itinerary sound hk []
  rw [Position.runOn_evaluate] at h
  generalize ending : (Position.start q root w).ending host = last at itinerary h
  obtain ⟨res, r⟩ := last
  obtain ⟨rfl, rfl⟩ := Prod.mk.inj h
  have tells := Position.tells_start q root w
  have log := itinerary.log_eq ⟨sound, on, rfl, tells⟩ hk hl (le_refl r.world.store)
  have none : (Stage.ended (res, r)).awaited (w.store.catchesAt root) [] = [] := by
    cases res with
    | error e => rfl
    | ok o => simp [Stage.awaited, Happening.fallback, Store.catchesAt]
  rw [none, List.append_nil] at log
  have start : (Position.start q root w).run.world.trace = .empty := fresh
  have trace := itinerary.trace_eq sound hk hl.keepsTrace traced
  have events : r.world.trace.events.toList = es.filterMap Happening.event? := by
    have noted := congrArg (·.events.toList) trace
    rw [start] at noted
    exact noted.trans ((Trace.events_record _ _).trans itinerary.events_eq.1)
  refine ⟨es, _, itinerary.chronicle sound hk, itinerary.nodup_left, events, log, rfl, ?_⟩
  rw [events]
  exact Happening.message_flatMap_records fun exit => itinerary.isKept sound hk hl exit

theorem leavesRecords_idle : Host.idle.LeavesRecords :=
  ⟨fun _ _ _ => ⟨rfl, rfl, fun kept => kept⟩, fun _ _ => ⟨rfl, rfl, fun kept => kept⟩⟩

/-- An operator that falls back from a node that raises a fault to the same node. -/
def lostTree : Attempt NodeRef :=
  Attempt.doubled (.raise (.str "lost" Store.noStamp)) .onFault .null

/-- The world in which the tree was made. -/
def lostWorld : World Unit :=
  ⟨(lostTree.runOn Store.empty).2, .empty, #[], ()⟩

/-- What is written when an operator falls back from a fault. -/
theorem runOn_evaluate_logged_of_lost :
    let q : Request :=
      { Request.standard with options := ⟨128, .bool true, by decide⟩, traced := true }
    Host.idle.KeepsTrees ∧ Host.idle.LeavesRecords ∧ Host.idle.IsOn q.options.debugTrace ∧
    lostWorld.store.IsTree ⟨1⟩ ∧ lostWorld.trace = .empty ∧
    ∃ result w' es records, (evaluate Host.idle q (.node ⟨1⟩)).runOn lostWorld = (result, w') ∧
      (Position.start q ⟨1⟩ lostWorld).Chronicle Host.idle es ∧
      w'.trace.events.toList = es.filterMap Happening.event? ∧
      w'.log.toList = records ∧
      records = es.flatMap (Happening.records w'.store (lostWorld.store.catchesAt ⟨1⟩)) ∧
      records = [.enter 0 "ExceptionCoalesce", .enter 1 "Raise", .exit 1 "Raise" true, .fallingBack 1,
        .enter 1 "Raise", .exit 1 "Raise" true, .exit 0 "ExceptionCoalesce" true] := by
  intro q
  have made : lostTree.runOn Store.empty = (.ok ⟨1⟩, lostWorld.store) := rfl
  have tree := (Attempt.isBuilt_of_doubled (Store.knows_all rfl) (by decide) made).tree
  have on : Host.idle.IsOn q.options.debugTrace := fun _ => rfl
  obtain ⟨es, records, chronicle, -, events, log, same, -⟩ :=
    runOn_evaluate_logged keepsTrees_idle leavesRecords_idle on tree rfl rfl
      (Prod.eta ((evaluate Host.idle q (.node ⟨1⟩)).runOn lostWorld)).symm
  refine ⟨keepsTrees_idle, leavesRecords_idle, on, tree, rfl, _, _, es, records,
    (Prod.eta _).symm, chronicle, events, log, same, ?_⟩
  have log : _ = records := log
  rw [← log]
  decide +kernel

end Fallback
