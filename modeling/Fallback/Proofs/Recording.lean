import Fallback.Trace

/-!
What a trace holds after it was told some things.

An evaluation and the evaluations that its callables start tell a trace only that a node is entered
or left. `Trace.record` notes a list of such notices, and `Trace.events_record` says which events
they become: their depths depend on the running depth at the start and on nothing else of the trace.

A trace keeps the truth in three places, the events, the counts and the running depth.
`Trace.IsFaithful` says that these agree, and whatever is recorded keeps it so.
-/
namespace Fallback

/-! ## Notices -/

/-- What a trace is told: a node is entered, or it is left with an outcome. -/
inductive Notice
  | enter (n : Value)
  | exit (n outcome : Value)
  deriving Inhabited

namespace Notice

/-- The event that a notice becomes at a running depth. -/
def event (depth : Int) : Notice → TraceEvent
  | .enter n => .enter n depth
  | .exit n outcome => .exit n (depth - 1) outcome

/-- The running depth after a notice. -/
def depthAfter (depth : Int) : Notice → Int
  | .enter _ => depth + 1
  | .exit _ _ => depth - 1

/-- The events that notices become from a running depth on. -/
def events : Int → List Notice → List TraceEvent
  | _, [] => []
  | depth, n :: ns => n.event depth :: events (n.depthAfter depth) ns

@[simp] theorem events_nil (depth : Int) : events depth [] = [] := rfl

@[simp] theorem events_cons (depth : Int) (n : Notice) (ns : List Notice) :
    events depth (n :: ns) = n.event depth :: events (n.depthAfter depth) ns := rfl

/-- The running depth after some notices. -/
def depthAfterAll (depth : Int) (ns : List Notice) : Int :=
  ns.foldl depthAfter depth

theorem depthAfterAll_append (depth : Int) (ns ms : List Notice) :
    depthAfterAll depth (ns ++ ms) = depthAfterAll (depthAfterAll depth ns) ms :=
  List.foldl_append

theorem events_append (depth : Int) (ns ms : List Notice) :
    events depth (ns ++ ms) = events depth ns ++ events (depthAfterAll depth ns) ms := by
  induction ns generalizing depth with
  | nil => rfl
  | cons n ns ih =>
    rw [List.cons_append, events_cons, ih, events_cons, List.cons_append]
    rfl

end Notice

namespace Trace

/-- Notes what the trace is told. -/
def note (t : Trace) : Notice → Trace
  | .enter n => t.enter n
  | .exit n outcome => t.exit n outcome

/-- Notes one thing after the other. -/
def record (t : Trace) (ns : List Notice) : Trace :=
  ns.foldl note t

@[simp] theorem record_nil (t : Trace) : t.record [] = t := rfl

@[simp] theorem record_cons (t : Trace) (n : Notice) (ns : List Notice) :
    t.record (n :: ns) = (t.note n).record ns := rfl

theorem record_append (t : Trace) (ns ms : List Notice) :
    t.record (ns ++ ms) = (t.record ns).record ms :=
  List.foldl_append

theorem events_note (t : Trace) (n : Notice) :
    (t.note n).events.toList = t.events.toList ++ [n.event t.depth] := by
  cases n <;> exact Array.toList_push

theorem depth_note (t : Trace) (n : Notice) : (t.note n).depth = n.depthAfter t.depth := by
  cases n <;> rfl

/-- What is recorded is added to the events, at depths that are told from the running depth. -/
theorem events_record (t : Trace) (ns : List Notice) :
    (t.record ns).events.toList = t.events.toList ++ Notice.events t.depth ns := by
  induction ns generalizing t with
  | nil => simp
  | cons n ns ih =>
    rw [record_cons, ih, events_note, depth_note, List.append_assoc]
    rfl

end Trace

/-! ## Counting events -/

namespace TraceEvent

/-- The event enters a node. -/
def isEnter : TraceEvent → Bool
  | .enter _ _ => true
  | .exit _ _ _ => false

/-- The event enters a given node. -/
def enters (n : Value) : TraceEvent → Bool
  | .enter m _ => m.isSame n
  | .exit _ _ _ => false

/-- The event leaves a given node. -/
def leaves (n : Value) : TraceEvent → Bool
  | .enter _ _ => false
  | .exit m _ _ => m.isSame n

/-- The outcome that the event notes for a given node. -/
def outcome? (n : Value) : TraceEvent → Option Value
  | .enter _ _ => none
  | .exit m _ outcome => if m.isSame n then some outcome else none

/-- How many of the events enter a node, less how many leave one. -/
def surplus (es : List TraceEvent) : Int :=
  (es.countP isEnter : Int) - es.countP fun e => !e.isEnter

@[simp] theorem surplus_nil : surplus [] = 0 := rfl

theorem surplus_append (es fs : List TraceEvent) :
    surplus (es ++ fs) = surplus es + surplus fs := by
  simp only [surplus, List.countP_append]
  omega

@[simp] theorem surplus_enter (n : Value) (depth : Int) : surplus [.enter n depth] = 1 := rfl

@[simp] theorem surplus_exit (n o : Value) (depth : Int) : surplus [.exit n depth o] = -1 := rfl

end TraceEvent

/-! ## Faithful traces -/

namespace Trace

/-- The events, the counts and the running depth of a trace tell the same. The depth of an event is
how many nodes are open before it, or after it if it leaves one; a node was counted as often as it
was entered; and the outcome of a node is that of the last event that leaves it. -/
structure IsFaithful (t : Trace) : Prop where
  depth : t.depth = TraceEvent.surplus t.events.toList
  enter {before after : List TraceEvent} {n : Value} {depth : Int}
    (h : t.events.toList = before ++ .enter n depth :: after) : depth = TraceEvent.surplus before
  exit {before after : List TraceEvent} {n o : Value} {depth : Int}
    (h : t.events.toList = before ++ .exit n depth o :: after) :
    depth = TraceEvent.surplus before - 1
  count (n : Value) : t.count n = t.events.toList.countP (TraceEvent.enters n)
  order (n : Value) : t.count n = t.order.countP fun m => m.isSame n
  outcomeOf {before after : List TraceEvent} {n m o : Value} {depth : Int}
    (h : t.events.toList = before ++ .exit m depth o :: after) (same : m.isSame n = true)
    (last : ∀ e ∈ after, e.leaves n = false) : t.outcomeOf n = o
  outcomeOf_eq_null {n : Value} (never : ∀ e ∈ t.events.toList, e.leaves n = false) :
    t.outcomeOf n = .null

/-- A count that is looked up is one more where it was bumped. -/
theorem lookup_bump (id id' : Identity) (counts : List (Identity × Nat)) :
    (((bump id counts).find? fun c => c.1 = id').map (·.2)).getD 0 =
      ((counts.find? fun c => c.1 = id').map (·.2)).getD 0 + if id = id' then 1 else 0 := by
  induction counts with
  | nil =>
    by_cases h : id = id' <;> simp [bump, h]
  | cons c counts ih =>
    by_cases hc : c.1 = id
    · by_cases h : id = id' <;> simp [bump, hc, h]
    · rw [bump, if_neg hc, List.find?_cons, List.find?_cons]
      by_cases h : c.1 = id'
      · simp [h, Ne.symm (h ▸ hc)]
      · simpa [h] using ih

theorem count_enter (t : Trace) (n m : Value) :
    (t.enter m).count n = t.count n + if m.isSame n then 1 else 0 := by
  simp only [count, enter, lookup_bump, Value.isSame, decide_eq_true_eq]

theorem count_exit (t : Trace) (n m o : Value) : (t.exit m o).count n = t.count n := rfl

/-- The nodes that were entered in turn are those of the events. -/
theorem countP_order (t : Trace) (n : Value) :
    (t.order.countP fun m => m.isSame n) = t.events.toList.countP (TraceEvent.enters n) := by
  rw [order, List.countP_filterMap]
  refine List.countP_congr fun e _ => ?_
  cases e <;> simp [TraceEvent.enters]

theorem outcomeOf_eq (t : Trace) (n : Value) :
    t.outcomeOf n = (t.events.toList.reverse.findSome? (TraceEvent.outcome? n)).getD .null := by
  rw [outcomeOf]
  congr 2
  funext e
  cases e <;> rfl

/-- Events that do not leave a node tell nothing about its outcome. -/
theorem findSome?_of_never {es : List TraceEvent} {n : Value}
    (never : ∀ e ∈ es, e.leaves n = false) :
    es.reverse.findSome? (TraceEvent.outcome? n) = none := by
  refine List.findSome?_eq_none_iff.2 fun e he => ?_
  have kept := never e (List.mem_reverse.1 he)
  cases e with
  | enter => rfl
  | exit m d o => simpa [TraceEvent.leaves, TraceEvent.outcome?] using kept

/-- The outcome of a node is the one that it was left with last. -/
theorem outcomeOf_of_last {t : Trace} {before after : List TraceEvent} {n m o : Value} {depth : Int}
    (h : t.events.toList = before ++ .exit m depth o :: after) (same : m.isSame n = true)
    (last : ∀ e ∈ after, e.leaves n = false) : t.outcomeOf n = o := by
  rw [outcomeOf_eq, h, List.reverse_append, List.reverse_cons, List.append_assoc,
    List.findSome?_append, findSome?_of_never last]
  simp [TraceEvent.outcome?, same]

theorem outcomeOf_of_never {t : Trace} {n : Value}
    (never : ∀ e ∈ t.events.toList, e.leaves n = false) : t.outcomeOf n = .null := by
  rw [outcomeOf_eq, findSome?_of_never never]
  rfl

/-- A split of the events before or at the one that was added last. -/
theorem split_of_concat {es before after : List TraceEvent} {e f : TraceEvent}
    (h : es ++ [f] = before ++ e :: after) :
    (∃ more, es = before ++ e :: more) ∨ (before = es ∧ e = f) := by
  rcases List.eq_nil_or_concat after with rfl | ⟨more, g, rfl⟩
  · obtain ⟨same, last⟩ := List.append_inj' h rfl
    exact .inr ⟨same.symm, (List.singleton_inj.1 last).symm⟩
  · rw [List.concat_eq_append, ← List.cons_append, ← List.append_assoc] at h
    exact .inl ⟨more, (List.append_inj' h rfl).1⟩

theorem isFaithful_empty : empty.IsFaithful where
  depth := rfl
  enter h := by simp [empty] at h
  exit h := by simp [empty] at h
  count _ := rfl
  order _ := rfl
  outcomeOf h := by simp [empty] at h
  outcomeOf_eq_null _ := rfl

theorem IsFaithful.note {t : Trace} (h : t.IsFaithful) (n : Notice) : (t.note n).IsFaithful := by
  have counts (m : Value) :
      (t.note n).count m = (t.note n).events.toList.countP (TraceEvent.enters m) := by
    rw [events_note, List.countP_append, ← h.count]
    cases n with
    | enter v =>
      rw [Trace.note, count_enter, List.countP_singleton]
      rfl
    | exit v o => simp [Trace.note, count_exit, Notice.event, TraceEvent.enters]
  refine ⟨?_, fun {before _ _ _} split => ?_, fun {before _ _ _ _} split => ?_, counts,
    fun m => (counts m).trans (countP_order _ m).symm, outcomeOf_of_last, outcomeOf_of_never⟩
  · rw [depth_note, events_note, TraceEvent.surplus_append, ← h.depth]
    cases n <;> simp [Notice.event, Notice.depthAfter, Int.sub_eq_add_neg]
  · rw [events_note] at split
    obtain ⟨_, split⟩ | ⟨rfl, same⟩ := split_of_concat split
    · exact h.enter split
    · cases n with
      | enter v =>
        cases same
        exact h.depth
      | exit v o => cases same
  · rw [events_note] at split
    obtain ⟨_, split⟩ | ⟨rfl, same⟩ := split_of_concat split
    · exact h.exit split
    · cases n with
      | enter v => cases same
      | exit v o =>
        cases same
        exact congrArg (· - 1) h.depth

/-- Recording keeps a trace faithful. -/
theorem IsFaithful.record {t : Trace} (h : t.IsFaithful) (ns : List Notice) :
    (t.record ns).IsFaithful := by
  induction ns generalizing t with
  | nil => exact h
  | cons n ns ih => exact ih (h.note n)

end Trace

end Fallback
