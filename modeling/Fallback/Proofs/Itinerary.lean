import Fallback.Proofs.Abort
import Fallback.Proofs.Recording

/-!
What happens in the course of an evaluation, and where.

A path leads from a node down to an occurrence of a node below it: it gives the slot of the operand
at each step. `Happening` has what happens at an occurrence: the node is entered, its rule invokes a
callable, or the node is left with an outcome. `Position.Itinerary` lists what happens in the course
of a visit from its start up to some stage. Every visit has an itinerary up to its end
(`Position.exists_itinerary`), and what a trace notes of the visit can be read off it
(`Position.Itinerary.trace_eq`), provided that the host adds nothing to the trace.
-/
namespace Fallback

open Relation (ReflTransGen)

variable {σ : Type} {host : Host σ}

/-! ## Happenings -/

/-- Something that happens at the node on a path: the node is entered, its rule invokes a callable,
or the node is left with an outcome. -/
inductive Happening
  | enter (path : List Nat) (n : NodeRef)
  | invoke (path : List Nat) (callee : Value) (args : List Value)
  | exit (path : List Nat) (n : NodeRef) (o : Outcome)

namespace Happening

/-- The path to the node at which it happens. -/
def path : Happening → List Nat
  | .enter path _ => path
  | .invoke path _ _ => path
  | .exit path _ _ => path

/-- What a trace is told of it. Of an invocation it is told nothing. -/
def notice? : Happening → Option Notice
  | .enter _ n => some (.enter (.node n))
  | .invoke _ _ _ => none
  | .exit _ n o => some (.exit (.node n) o.toValue)

/-- What a trace is told of happenings. -/
def notices (es : List Happening) : List Notice :=
  es.filterMap notice?

@[simp] theorem notices_append (es fs : List Happening) :
    notices (es ++ fs) = notices es ++ notices fs :=
  List.filterMap_append

/-- An invocation of a callable at the node on a path. -/
def ofInvocation (path : List Nat) (call : Value × List Value) : Happening :=
  .invoke path call.1 call.2

end Happening

/-- The way of its own to be copied that a recoverable fault has. -/
def Store.ownWay? (s : Store) (x : FaultRef) : Option Value :=
  if (s.fault x).kind.isLocatable then s.attribute? (.fault x) copyName else none

/-- The callable that a rule invokes, and its arguments, once its operands have ended with some
outcomes: a call invokes the value of its callee when it has a value for every argument, and a
raising node invokes the way of its own that its fault has to be copied. -/
def Form.invocation? (s : Store) : Form → List Outcome → Option (Value × List Value)
  | .call _ args, first :: more =>
    if args.tupleItems.length ≤ more.length ∧ (more.getLastD first).isRaised = false ∧
        first.value.isCallable then
      some (first.value, more.map Outcome.value)
    else none
  | .raise (.fault x), _ => ((s.ownWay? x).filter Value.isCallable).map fun way => (way, [])
  | _, _ => none

/-- The invocation that a rule makes when it ends, as a happening at the node on a path. -/
def Form.invocations (s : Store) (f : Form) (path : List Nat) (os : List Outcome) :
    List Happening :=
  ((f.invocation? s os).map (Happening.ofInvocation path)).toList

@[simp] theorem Form.notices_invocations (s : Store) (f : Form) (path : List Nat)
    (os : List Outcome) : Happening.notices (f.invocations s path os) = [] := by
  unfold invocations
  cases f.invocation? s os <;> rfl

/-- It happens at the node on a path when the rule of the node ends: an invocation, or that the node
is left. -/
def Happening.Closes (path : List Nat) : Happening → Prop
  | .enter _ _ => False
  | .invoke way _ _ => way = path
  | .exit way _ _ => way = path

theorem Happening.Closes.path_eq {path : List Nat} {x : Happening} (h : x.Closes path) :
    x.path = path := by
  cases x with
  | enter => cases h
  | invoke | exit => exact h

section Closing

variable {s : Store} {f : Form} {path : List Nat} {os : List Outcome} {x : Happening}

theorem Form.eq_invoke_of_invocations (mem : x ∈ f.invocations s path os) :
    ∃ callee args, x = .invoke path callee args := by
  obtain ⟨call, -, rfl⟩ := Option.map_eq_some_iff.1 (Option.mem_toList.1 mem)
  exact ⟨call.1, call.2, rfl⟩

theorem Form.closes_of_invocations (mem : x ∈ f.invocations s path os) : x.Closes path := by
  obtain ⟨callee, args, rfl⟩ := eq_invoke_of_invocations mem
  exact rfl

theorem Form.closes_of_end {n : NodeRef} {o : Outcome}
    (mem : x ∈ f.invocations s path os ++ [.exit path n o]) : x.Closes path := by
  obtain mem | mem := List.mem_append.1 mem
  · exact closes_of_invocations mem
  · rw [List.mem_singleton.1 mem]
    exact rfl

end Closing

/-! ## Itineraries -/

/-- How far a visit has come: its node is open, and operands in some slots have ended with some
outcomes; or it has ended. -/
inductive Stage (σ : Type)
  | isOpen (done : List (Nat × Outcome)) (r : Run σ)
  | ended (q : Except FaultRef Outcome × Run σ)

/-- The state that has been reached. -/
def Stage.run : Stage σ → Run σ
  | .isOpen _ r => r
  | .ended q => q.2

namespace Position

/-- What happens in the course of a visit to the node on a path, from the start of the visit up to a
stage of it. -/
inductive Itinerary (host : Host σ) : Position σ → List Nat → List Happening → Stage σ → Prop
  | refused {p path e r} (enter : (enterNode host p.value).runOn p.run = (.error e, r)) :
      Itinerary host p path [] (.ended (.error e, r))
  | entered {p path r} (budget : p.budget ≠ 0)
      (enter : (enterNode host p.value).runOn p.run = (.ok p.kind, r)) :
      Itinerary host p path [.enter path p.node] (.isOpen [] r)
  | visited {p c path es fs done r i o r'} (before : Itinerary host p path es (.isOpen done r))
      (budget : c.budget + 1 = p.budget)
      (decided : (p.form.next host (done.map Prod.snd)).runOn r = (.ok (.visit i c.value), c.run))
      (visit : Itinerary host c (path ++ [i]) fs (.ended (.ok o, r'))) :
      Itinerary host p path (es ++ fs) (.isOpen (done ++ [(i, o)]) r')
  | brokenBelow {p c path es fs done r i e r'}
      (before : Itinerary host p path es (.isOpen done r)) (budget : c.budget + 1 = p.budget)
      (decided : (p.form.next host (done.map Prod.snd)).runOn r = (.ok (.visit i c.value), c.run))
      (visit : Itinerary host c (path ++ [i]) fs (.ended (.error e, r'))) :
      Itinerary host p path (es ++ fs) (.ended (.error e, r'))
  | broken {p path es done r e r'} (before : Itinerary host p path es (.isOpen done r))
      (decided : (p.form.next host (done.map Prod.snd)).runOn r = (.error e, r')) :
      Itinerary host p path (es ++ p.form.invocations r.world.store path (done.map Prod.snd))
        (.ended (.error e, r'))
  | left {p path es done r o r₁ r'} (before : Itinerary host p path es (.isOpen done r))
      (decided : (p.form.next host (done.map Prod.snd)).runOn r = (.ok (.keep o), r₁) ∨
        (p.form.next host (done.map Prod.snd)).runOn r = (.ok (.finish o), r₁))
      (leave : (leaveNode host p.value p.kind o).runOn r₁ = (.ok (), r')) :
      Itinerary host p path
        (es ++ (p.form.invocations r.world.store path (done.map Prod.snd) ++ [.exit path p.node o]))
        (.ended (.ok o, r'))
  | notLeft {p path es done r o r₁ e r'} (before : Itinerary host p path es (.isOpen done r))
      (decided : (p.form.next host (done.map Prod.snd)).runOn r = (.ok (.keep o), r₁) ∨
        (p.form.next host (done.map Prod.snd)).runOn r = (.ok (.finish o), r₁))
      (leave : (leaveNode host p.value p.kind o).runOn r₁ = (.error e, r')) :
      Itinerary host p path
        (es ++ (p.form.invocations r.world.store path (done.map Prod.snd) ++ [.exit path p.node o]))
        (.ended (.error e, r'))

/-- The visit comes to the stage. -/
def ComesTo (host : Host σ) (p : Position σ) : Stage σ → Prop
  | .isOpen done r => p.Progress host (done.map Prod.snd) r
  | .ended q => p.ending host = q

variable {p c : Position σ} {path : List Nat} {es fs : List Happening} {st : Stage σ}
  {done : List (Nat × Outcome)} {r r' : Run σ} {q : Except FaultRef Outcome × Run σ}

/-- Facts about the stages in which a node is open, from one operand to the next. -/
@[elab_as_elim]
theorem Itinerary.isOpen_induction {p : Position σ} {path : List Nat}
    {motive : ∀ {es : List Happening} {done : List (Nat × Outcome)} {r : Run σ},
      p.Itinerary host path es (.isOpen done r) → Prop}
    (entered : ∀ {r} (budget : p.budget ≠ 0)
      (enter : (enterNode host p.value).runOn p.run = (.ok p.kind, r)),
      motive (.entered budget enter))
    (visited : ∀ {es fs : List Happening} {done : List (Nat × Outcome)} {r r' : Run σ}
      {c : Position σ} {i : Nat} {o : Outcome}
      (before : p.Itinerary host path es (.isOpen done r)) (budget : c.budget + 1 = p.budget)
      (decided : (p.form.next host (done.map Prod.snd)).runOn r =
        (.ok (.visit i c.value), c.run))
      (visit : c.Itinerary host (path ++ [i]) fs (.ended (.ok o, r'))),
      motive before → motive (.visited before budget decided visit))
    (h : p.Itinerary host path es (.isOpen done r)) : motive h := by
  suffices stages : ∀ {st} (h : p.Itinerary host path es st) {done r}
      (same : st = .isOpen done r), motive (same ▸ h) from stages h rfl
  clear h
  intro st h
  induction h with
  | entered budget enter =>
    intro done r same
    cases same
    exact entered budget enter
  | visited before budget decided visit ih =>
    intro done r same
    cases same
    exact visited before budget decided visit (ih entered visited rfl)
  | refused | brokenBelow | broken | left | notLeft =>
    intro done r same
    cases same

/-! ## What itineraries come to -/

theorem Progress.isChild {i : Nat} (h : p.Progress host (done.map Prod.snd) r)
    (budget : c.budget + 1 = p.budget)
    (decided : (p.form.next host (done.map Prod.snd)).runOn r = (.ok (.visit i c.value), c.run)) :
    p.Child host i c :=
  ⟨budget, _, r, h, decided⟩

/-- An itinerary belongs to what the visit comes to. -/
theorem Itinerary.comesTo (h : p.Itinerary host path es st) (sound : p.IsSound)
    (hk : host.KeepsTrees) : p.ComesTo host st := by
  induction h with
  | refused enter => exact ending_of_enter_error sound enter
  | entered budget enter => exact .entered budget enter
  | visited before budget decided visit ihBefore ihVisit =>
    have progress := ihBefore sound
    have child := progress.isChild budget decided
    have ending := child.ending_eq.trans (ihVisit (child.isSound sound hk))
    rw [ComesTo, List.map_append]
    exact .visited progress decided ending
  | brokenBelow before budget decided visit ihBefore ihVisit =>
    have child := (ihBefore sound).isChild budget decided
    exact (ending_eq_error_iff sound hk).2
      (.inr ⟨_, _, child, ihVisit (child.isSound sound hk)⟩)
  | broken before decided ih =>
    exact (ending_eq_error_iff sound hk).2 (.inl (.deciding (ih sound) decided))
  | left before decided leave ih =>
    exact (ending_eq_ok_iff sound hk).2 ⟨_, ⟨_, _, ih sound, decided⟩, leave⟩
  | notLeft before decided leave ih =>
    exact (ending_eq_error_iff sound hk).2 (.inl (.leaving ⟨_, _, ih sound, decided⟩ leave))

/-- A visit has an itinerary up to wherever it has come to, if the visits that it makes have. -/
theorem Progress.exists_itinerary_of (sound : p.IsSound) (hk : host.KeepsTrees) {os : List Outcome}
    (below : ∀ c : Position σ, c.budget < p.budget → c.IsSound → ∀ path,
      ∃ es, c.Itinerary host path es (.ended (c.ending host)))
    (path : List Nat) (h : p.Progress host os r) :
    ∃ es done, done.map Prod.snd = os ∧ p.Itinerary host path es (.isOpen done r) := by
  induction h with
  | entered budget enter => exact ⟨_, [], rfl, .entered budget enter⟩
  | @visited os r i v r₁ o r₂ before decided visit ih =>
    obtain ⟨es, done, rfl, itinerary⟩ := ih
    obtain ⟨c, rfl, child, csound, rfl, ending⟩ := before.child sound hk decided
    obtain ⟨fs, down⟩ := below c (by have := child.budget; omega) csound (path ++ [i])
    rw [ending, visit] at down
    exact ⟨es ++ fs, done ++ [(i, o)], by simp, .visited itinerary child.budget decided down⟩

/-- Every visit has an itinerary up to its end. -/
theorem exists_itinerary (sound : p.IsSound) (hk : host.KeepsTrees) (path : List Nat) :
    ∃ es, p.Itinerary host path es (.ended (p.ending host)) := by
  induction hb : p.budget using Nat.strongRecOn generalizing p path with
  | ind b ih =>
    have below : ∀ c : Position σ, c.budget < p.budget → c.IsSound → ∀ path,
        ∃ es, c.Itinerary host path es (.ended (c.ending host)) :=
      fun c less csound path => ih c.budget (hb ▸ less) csound path rfl
    rcases ending : p.ending host with ⟨e | o, r⟩
    · obtain broken | ⟨i, c, child, cending⟩ := (ending_eq_error_iff sound hk).1 ending
      · cases broken with
        | entering enter => exact ⟨_, .refused enter⟩
        | deciding progress decided =>
          obtain ⟨es, done, rfl, itinerary⟩ := progress.exists_itinerary_of sound hk below path
          exact ⟨_, .broken itinerary decided⟩
        | leaving settled leave =>
          obtain ⟨os, r₀, progress, decided⟩ := settled
          obtain ⟨es, done, rfl, itinerary⟩ := progress.exists_itinerary_of sound hk below path
          exact ⟨_, .notLeft itinerary decided leave⟩
      · obtain ⟨os, r₀, progress, decided⟩ := child.decided
        obtain ⟨es, done, rfl, itinerary⟩ := progress.exists_itinerary_of sound hk below path
        obtain ⟨fs, down⟩ := below c (by have := child.budget; omega)
          (child.isSound sound hk) (path ++ [i])
        rw [cending] at down
        exact ⟨es ++ fs, .brokenBelow itinerary child.budget decided down⟩
    · obtain ⟨r₁, ⟨os, r₀, progress, decided⟩, leave⟩ := (ending_eq_ok_iff sound hk).1 ending
      obtain ⟨es, done, rfl, itinerary⟩ := progress.exists_itinerary_of sound hk below path
      exact ⟨_, .left itinerary decided leave⟩

/-! ## What a trace notes -/

/-- A node that cannot be entered is not noted. -/
theorem enterNode_error_trace {v : Value} {e : FaultRef}
    (h : (enterNode host v).runOn r = (.error e, r')) (ht : host.KeepsTrace) :
    r'.world.trace = r.world.trace := by
  obtain opened | ⟨f, push, failed, -⟩ := enterNode_eq_error_iff.1 h
  · obtain ⟨refusal, -, refused⟩ := openNode_eq_error opened
    cases refused
    rfl
  · have changes := reflTransGen_of_act (r := r) (composed_truthTest f.debug) failed
    show (⟨r.frame, r'.world⟩ : Run σ).world.trace = r.world.trace
    exact Run.Change.trace_eq changes ht

/-- A node is noted as left whether or not its leaving is then broken off. -/
theorem leaveNode_notes {v : Value} {kind : String} {o : Outcome} {f : Frame}
    {result : Except FaultRef Unit} (push : f.push v = .ok r.frame)
    (h : (leaveNode host v kind o).runOn r = (result, r')) (ht : host.KeepsTrace)
    (traced : r.frame.traced = true) : r'.world.trace = r.world.trace.exit v o.toValue := by
  rcases result with e | u
  · obtain ⟨failed, -⟩ := (leaveNode_eq_error_iff push).1 h
    have changes := reflTransGen_of_act (r := ⟨r.frame, r.noted v o⟩)
      (composed_truthTest r.frame.debug) failed
    have same : r'.world.trace = (r.noted v o).trace := Run.Change.trace_eq changes ht
    rw [same]
    simp only [Run.noted, traced, if_true]
  · exact leaveNode_trace h ht traced

/-- What a trace has noted of a visit is what has happened. -/
theorem Itinerary.trace_eq (h : p.Itinerary host path es st) (sound : p.IsSound)
    (hk : host.KeepsTrees) (ht : host.KeepsTrace) (traced : p.run.frame.traced = true) :
    st.run.world.trace = p.run.world.trace.record (Happening.notices es) := by
  induction h with
  | refused enter => exact enterNode_error_trace enter ht
  | entered budget enter => exact enterNode_trace enter ht traced
  | @visited p c path es fs done r i o r' before budget decided visit ihBefore ihVisit
  | @brokenBelow p c path es fs done r i o r' before budget decided visit ihBefore ihVisit =>
    have progress : p.Progress host _ r := before.comesTo sound hk
    have child := progress.isChild budget decided
    have changes := (p.form.makes_next _).of_run decided
    have told : c.run.frame.traced = true := by
      rw [Run.Change.frame_eq changes, progress.traced_eq sound hk, traced]
    have start : c.run.world.trace = r.world.trace := Run.Change.trace_eq changes ht
    rw [Happening.notices_append, Trace.record_append, ← ihBefore sound traced]
    exact (ihVisit (child.isSound sound hk) told).trans (by rw [start]; rfl)
  | @broken p path es done r e r' before decided ih =>
    have same : r'.world.trace = r.world.trace :=
      Run.Change.trace_eq ((p.form.makes_next _).of_run decided) ht
    rw [Happening.notices_append, Form.notices_invocations, List.append_nil, ← ih sound traced]
    exact same
  | @left p path es done r o r₁ r' before decided leave ih
  | @notLeft p path es done r o r₁ e r' before decided leave ih =>
    have progress : p.Progress host _ r := before.comesTo sound hk
    have changes := Form.changes_of_end decided
    have told : r₁.frame.traced = true := by
      rw [Run.Change.frame_eq changes, progress.traced_eq sound hk, traced]
    have push : p.run.frame.push p.value = .ok r₁.frame := by
      rw [Run.Change.frame_eq changes, (progress.push_eq sound hk).1]
    have noted := leaveNode_notes push leave ht told
    have start : r₁.world.trace = r.world.trace := Run.Change.trace_eq changes ht
    rw [Happening.notices_append, Happening.notices_append, Form.notices_invocations,
      List.nil_append, Trace.record_append, ← ih sound traced]
    exact noted.trans (congrArg (·.exit p.value o.toValue) start)

end Position

end Fallback
