import Fallback.Proofs.Guard
import Fallback.Proofs.Provenance

/-!
Where the report of a broken tree goes.

Such a report is meant to end the evaluation in which it comes up. It does where the frame refuses a
node, where an invoked value ends with it and where the debug switch does: `Position.Meets` lists
these cases. It does not where the truth test of a rule ends with it, because the guard around truth
tests makes a failed call of it like of any other fault. And it can be an outcome: a raising node
may hold a report, or a recoverable fault that is copied to one. `Position.Presents` lists these two
cases, and an evaluation returns a raised report exactly if one of them stands at the end of a path
on which nothing catches it.
-/
namespace Fallback

open Relation (ReflTransGen)

variable {σ : Type} {host : Host σ}

namespace Store

/-- Attaching a place to a fault changes the kind of none. -/
theorem kind_locate (s : Store) (e x : FaultRef) (place : Value) :
    ((s.locate e place).fault x).kind = (s.fault x).kind := by
  by_cases h : x = e
  · subst h
    by_cases hx : x.index < s.faults.size
    · rw [fault_locate_self place hx]
    · rw [locate_of_le place (Nat.le_of_not_lt hx)]
  · rw [fault_locate_of_ne s place h]

theorem kind_attachPlace (s : Store) (v : Value) (o : Outcome) (x : FaultRef) :
    ((s.attachPlace v o).fault x).kind = (s.fault x).kind := by
  unfold attachPlace
  split
  · dsimp only
    split
    · exact kind_locate s _ x _
    · rfl
  · rfl

theorem kind_attachFirst (s : Store) (e : Value) (places : List Value) (x : FaultRef) :
    ((s.attachFirst e places).fault x).kind = (s.fault x).kind := by
  unfold attachFirst
  split
  · split
    · exact kind_locate s _ x _
    · rfl
  · rfl

end Store

/-! ## Handing on -/

/-- A rule calls the host only after an operand that succeeded. -/
theorem Form.HostFails.succeeded_last {f : Form} {os : List Outcome} {c : FaultRef}
    {w w' : World σ} (h : f.HostFails host w os c w') :
    ∀ o ∈ os.getLast?, o.isRaised = false := by
  intro o ho
  cases h with
  | invocation _ succeeded _ _ => exact succeeded o (List.mem_of_getLast? ho)
  | operatorTest succeeded _ =>
    obtain rfl := Option.mem_some.1 ho
    simp [Outcome.isRaised, succeeded]
  | choiceTest succeeded _ =>
    obtain rfl := Option.mem_some.1 ho
    simp [Outcome.isRaised, succeeded]

/-- The first slot that is visited is that of the left operand. -/
theorem Form.visit_eq_zero {f : Form} {i : Nat} {v : Value} {r r' : Run σ}
    (h : (f.next host []).runOn r = (.ok (.visit i v), r')) : i = 0 := by
  cases f.next_decides h with
  | first operand => rfl
  | more last _ _ _ => cases last

/-- A rule that does not catch what an operand has raised keeps it. -/
theorem Form.next_eq_keep {f : Form} {os : List Outcome} {i : Nat} {v : Value} {o : Outcome}
    {r₀ r₁ r : Run σ} (visits : (f.next host os).runOn r₀ = (.ok (.visit i v), r₁))
    (uncaught : ¬f.Catches i) (raised : o.isRaised = true) (fit : f.IsFit r.world.store)
    (known : f.Known (os ++ [o])) :
    (f.next host (os ++ [o])).runOn r = (.ok (.keep o), r) := by
  have last : (os ++ [o]).getLast? = some o := List.getLast?_concat ..
  -- only the rule of an operator that catches would visit nothing before this operand
  have notCaught : ∀ o', os ++ [o] = [o'] → ¬f.Catches 0 := by
    intro o' alone caught
    obtain rfl : os = [] := by
      cases os with
      | nil => rfl
      | cons a more => simp at alone
    rw [Form.visit_eq_zero visits] at uncaught
    exact uncaught caught
  have lastRaised : ∀ o', (os ++ [o]).getLast? = some o' → o'.isRaised = true := by
    intro o' last'
    rw [last] at last'
    cases last'
    exact raised
  have operand := Form.next_visit_mem visits
  rcases decided : (f.next host (os ++ [o])).runOn r with ⟨e | m, r'⟩
  · generalize os ++ [o] = all at *
    cases Form.breaks_of_next fit known decided with
    | guard failed broken =>
      rw [failed.succeeded_last o last] at raised
      cases raised
    | copy locatable own failed => cases operand
    | switch _ failed => exact absurd ⟨rfl, _, _, rfl⟩ (notCaught _ rfl)
  · generalize os ++ [o] = all at *
    cases f.next_decides decided with
    | first operand => cases last
    | more last' succeeded _ _ =>
      rw [lastRaised _ last'] at succeeded
      cases succeeded
    | catches caught _ _ => exact absurd caught (notCaught _ rfl)
    | handsOn last' _ _ =>
      rw [last] at last'
      cases last'
      rfl
    | keeps last' succeeded =>
      rw [lastRaised _ last'] at succeeded
      cases succeeded
    | finishes succeeded =>
      rw [succeeded (List.ne_nil_of_mem operand) o last] at raised
      cases raised

namespace Position

variable {p c : Position σ} {o : Outcome} {r : Run σ}

/-- A visit hands on what a visit that it makes has raised, unless its form catches it. -/
theorem HandsOn.settles (h : p.HandsOn host c) (sound : p.IsSound) (hk : host.KeepsTrees)
    (ending : c.ending host = (.ok o, r)) (raised : o.isRaised = true) :
    p.Settles host o r := by
  obtain ⟨slot, child, uncaught⟩ := h
  obtain ⟨os, r₀, progress, visits⟩ := child.decided
  rw [← child.ending_eq] at ending
  have further := Progress.visited progress visits ending
  have fit := sound.tree.whole.fit.mono (further.push_eq sound hk).2
  exact ⟨_, r, further, .inl (Form.next_eq_keep visits uncaught raised fit further.known)⟩

/-- With a switch that tells its truth, a node whose rule has ended can be left. -/
theorem Settles.ending (h : p.Settles host o r) (sound : p.IsSound) (hk : host.KeepsTrees)
    (answers : host.Answers p.run.frame.debug) :
    ∃ r', p.ending host = (.ok o, r') ∧
      ∀ x, (r'.world.store.fault x).kind = (r.world.store.fault x).kind := by
  have push := h.push_eq sound hk
  have same : r.frame.debug = p.run.frame.debug := (Frame.settings_of_push push).2.1
  have told : host.Answers r.frame.debug := same ▸ answers
  rcases left : (leaveNode host p.value p.kind o).runOn r with ⟨e | u, r'⟩
  · obtain ⟨b, tested⟩ := told (r.noted p.value o)
    rw [((leaveNode_eq_error_iff push).1 left).1] at tested
    cases tested
  · refine ⟨r', (ending_eq_ok_iff sound hk).2 ⟨r, h, left⟩, fun x => ?_⟩
    rw [(leaveNode_quiet told left).2.1]
    exact Store.kind_attachPlace _ _ _ x

/-- What a visit has raised comes out at the top of every path on which nothing catches it. -/
theorem ending_of_handsOn (path : ReflTransGen (HandsOn host) p c) (sound : p.IsSound)
    (hk : host.KeepsTrees) (answers : host.Answers p.run.frame.debug)
    (settled : c.Settles host o r) (raised : o.isRaised = true) :
    ∃ r', p.ending host = (.ok o, r') ∧
      ∀ x, (r'.world.store.fault x).kind = (r.world.store.fault x).kind := by
  induction path using ReflTransGen.head_induction_on with
  | refl => exact settled.ending sound hk answers
  | head step _ ih =>
    obtain ⟨slot, child, uncaught⟩ := step
    have told : host.Answers _ := child.debug_eq sound hk ▸ answers
    obtain ⟨r₁, below, kinds⟩ := ih (child.isSound sound hk) told
    have settles := HandsOn.settles ⟨slot, child, uncaught⟩ sound hk below raised
    obtain ⟨r', ending, kinds'⟩ := settles.ending sound hk answers
    exact ⟨r', ending, fun x => (kinds' x).trans (kinds x)⟩

/-! ## Reports that come up -/

/-- A fault comes up in a visit where the report of a broken tree ends the evaluation: the frame
refuses the node, an invoked value ends with the fault, or the debug switch does. -/
inductive Meets (host : Host σ) (p : Position σ) (c : FaultRef) (w' : World σ) : Prop
  | refused {refusal} (push : p.run.frame.push p.value = .error refusal)
      (reported : (Act.ofAttempt (Attempt.malformed (p.run.world.store.placeOf p.value)
        refusal.message) : Act σ Unit).runOn p.run.world = (.error c, w'))
  | invocation {callee args os r} (form : p.form = .call callee args)
      (progress : p.Progress host os r) (failed : p.form.HostFails host r.world os c w')
  | copy {os r x way} (progress : p.Progress host os r) (form : p.form = .raise (.fault x))
      (locatable : (r.world.store.fault x).kind.isLocatable = true)
      (own : r.world.store.attribute? (.fault x) copyName = some way)
      (failed : (invoke host way []).runOn r.world = (.error c, w'))
  | switch {w} (asked : p.AsksSwitch host w)
      (failed : (truthTest host p.run.frame.debug).runOn w = (.error c, w'))

/-- The report of a broken tree breaks off the visit in which it comes up. -/
theorem Meets.escapes {x : FaultRef} {w' : World σ} (h : p.Meets host x w') (sound : p.IsSound)
    (hk : host.KeepsTrees) (malformed : (w'.store.fault x).kind = .malformed) :
    p.Escapes host x w' := by
  cases h with
  | refused push reported => exact .refused push reported
  | invocation form progress failed =>
    refine .deciding progress (.guard failed ?_)
    have lets : p.form.letsThrough (w'.store.fault x).kind = true := by
      simp [form, Form.letsThrough, malformed, FaultKind.escapesCall]
    rw [Form.guard, guardFault, Work.runOn_ofRun, if_pos lets]
  | copy progress form locatable own failed =>
    exact Unguarded.escapes (.copy progress form locatable own failed) sound hk
  | switch asked failed => exact Unguarded.escapes (.switch asked failed) sound hk

/-! ## Reports as outcomes -/

/-- The rule of a raising node makes an outcome of the report of a broken tree: the node holds it,
or it holds a recoverable fault whose own way to be copied gives it. -/
inductive Presents (host : Host σ) (p : Position σ) (e : FaultRef) : Prop
  | held {os r} (progress : p.Progress host os r) (form : p.form = .raise (.fault e))
      (malformed : (r.world.store.fault e).kind = .malformed)
  | copied {os r x w} (progress : p.Progress host os r) (form : p.form = .raise (.fault x))
      (locatable : (r.world.store.fault x).kind.isLocatable = true)
      (copy : (copyOf host x).runOn r.world = (.ok (.fault e), w))
      (malformed : (w.store.fault e).kind = .malformed)

/-- What a raising node does, seen from the outcome: it raises the fault that it holds, or the copy
of it. -/
theorem evalRaise_eq_ok {x : FaultRef} {w w' : World σ}
    (h : (evalRaise host (.fault x)).runOn w = (.ok o, w')) :
    (o.result = .raised (.fault x) ∧ ∀ y, w'.store.fault y = w.store.fault y) ∨
    ((w.store.fault x).kind.isLocatable = true ∧ ∃ v w₁, (copyOf host x).runOn w = (.ok v, w₁) ∧
      o.result = .raised v ∧ ∀ y, w'.store.fault y = w₁.store.fault y) := by
  rw [runOn_evalRaise] at h
  split at h
  · next locatable =>
    obtain ⟨v, w₁, copied, made⟩ := Work.runOn_bind_eq_ok.1 h
    cases made
    exact .inr ⟨locatable, v, w₁, copied, rfl, fun _ => rfl⟩
  · cases h
    exact .inl ⟨rfl, fun _ => rfl⟩

theorem Produces.presents {e : FaultRef} {made : Run σ} (h : p.Produces host o (.fault e) made)
    (raised : o.result = .raised (.fault e))
    (malformed : (made.world.store.fault e).kind = .malformed) : p.Presents host e := by
  obtain ⟨os, r, progress, decided, raises⟩ := h
  have holds : ∃ x, p.form = .raise (.fault x) := by
    generalize p.form = f at raises
    cases raises with
    | unbound named free kind =>
      rw [kind] at malformed
      cases malformed
    | held fixed => exact ⟨_, rfl⟩
    | copied locatable copy => exact ⟨_, rfl⟩
    | notCallable complete succeeded uncallable kind =>
      rw [kind] at malformed
      cases malformed
    | hostFailed failed kind cause =>
      rw [kind] at malformed
      cases malformed
  obtain ⟨x, form⟩ := holds
  rw [form] at decided
  obtain ⟨result, same⟩ | ⟨locatable, v, w, copy, result, same⟩ :=
    evalRaise_eq_ok (runOn_make_eq_ok.1 decided).1
  · rw [raised] at result
    cases result
    rw [same] at malformed
    exact .held progress form malformed
  · rw [raised] at result
    cases result
    rw [same] at malformed
    exact .copied progress form locatable copy malformed

/-- A visit to a raising node settles with what raising the fault ends with. -/
theorem settles_of_evalRaise {x : FaultRef} {os : List Outcome} {w : World σ}
    (progress : p.Progress host os r) (form : p.form = .raise (.fault x))
    (raises : (evalRaise host (.fault x)).runOn r.world = (.ok o, w)) :
    p.Settles host o ⟨r.frame, w⟩ := by
  have decided : (p.form.next host os).runOn r = (.ok (.finish o), ⟨r.frame, w⟩) := by
    rw [form]
    exact runOn_make_eq_ok.2 ⟨raises, rfl⟩
  exact ⟨os, r, progress, .inr decided⟩

theorem Presents.settles {e : FaultRef} (h : p.Presents host e) :
    ∃ o r, p.Settles host o r ∧ o.result = .raised (.fault e) ∧
      (r.world.store.fault e).kind = .malformed := by
  cases h with
  | @held os r progress form malformed =>
    have fixed : ¬(r.world.store.fault e).kind.isLocatable = true := by
      rw [malformed]
      decide
    have raises : (evalRaise host (.fault e)).runOn r.world =
        (Act.raised (.fault e)).runOn r.world := by
      rw [runOn_evalRaise, if_neg fixed]
    exact ⟨_, _, settles_of_evalRaise progress form raises, rfl, malformed⟩
  | @copied os r x w progress form locatable copy malformed =>
    have raises : (evalRaise host (.fault x)).runOn r.world = (Act.raised (.fault e)).runOn w := by
      rw [runOn_evalRaise, if_pos locatable, Work.runOn_bind_ok copy]
    exact ⟨_, _, settles_of_evalRaise progress form raises, rfl, malformed⟩

/-- A raised report that a visit ends with is presented at the end of the path that it came
along. -/
theorem exists_presents {e : FaultRef} (sound : p.IsSound) (hk : host.KeepsTrees)
    (answers : host.Answers p.run.frame.debug) (ending : p.ending host = (.ok o, r))
    (raised : o.result = .raised (.fault e))
    (malformed : (r.world.store.fault e).kind = .malformed) :
    ∃ c, ReflTransGen (HandsOn host) p c ∧ c.Presents host e := by
  obtain ⟨below, made, provenance, debug⟩ := exists_provenance hk sound ending raised
  have told : host.Answers made.frame.debug := debug ▸ answers
  rw [(leaveAll_quiet raised told provenance.left).1, Store.kind_attachFirst] at malformed
  obtain ⟨last, isLast, produces⟩ := provenance.produced
  refine ⟨last, ?_, produces.presents raised malformed⟩
  refine List.relationReflTransGen_of_exists_isChain_cons below provenance.chain ?_
  rw [List.getLast?_eq_some_getLast (List.cons_ne_nil _ _)] at isLast
  exact Option.some.inj isLast

/-! ## Reports in truth tests -/

/-- The report that a truth test ends with becomes the cause of a failed call, or the visit is
broken off because the report cannot be shown. -/
theorem caught_of_hostFails {os : List Outcome} {c : FaultRef} {w₁ : World σ}
    (progress : p.Progress host os r) (notCall : ∀ callee args, p.form ≠ .call callee args)
    (failed : p.form.HostFails host r.world os c w₁)
    (malformed : (w₁.store.fault c).kind = .malformed) (sound : p.IsSound)
    (hk : host.KeepsTrees) :
    (∃ named o x s, w₁.store.namedText (.fault c) = .ok named ∧ p.Settles host o s ∧
      o.result = .raised (.fault x) ∧ (s.world.store.fault x).kind = .failedCall ∧
      (s.world.store.fault x).cause? = some (.fault c)) ∨
    ∃ m e w', w₁.store.namedText (.fault c) = .error m ∧
      (Act.ofAttempt (Attempt.misuse m) : Act σ FaultRef).runOn w₁ = (.error e, w') ∧
      p.Escapes host e w' := by
  have guarded : p.form.letsThrough (w₁.store.fault c).kind = false := by
    rw [malformed]
    cases form : p.form with
    | call callee args => exact absurd form (notCall callee args)
    | _ => rfl
  cases shown : w₁.store.namedText (.fault c) with
  | ok named =>
    obtain ⟨o, x, s, settled⟩ := settles_of_shown progress failed guarded shown
    exact .inl ⟨named, o, x, s, rfl, settled⟩
  | error m =>
    have unguarded := Unguarded.unshown progress failed guarded shown rfl
    exact .inr ⟨m, _, _, rfl, rfl, unguarded.escapes sound hk⟩

end Position

/-- The report of a broken tree that comes up where the frame refuses a node, in an invoked value or
in the debug switch is what the evaluation ends with. One that the truth test of a rule ends with is
not: the rule raises a failed call with the report as its cause, or, where the report cannot be
shown, the evaluation ends with another fault. And an evaluation returns a raised report exactly if
a raising node presents it on a path on which nothing catches it. -/
theorem runOn_evaluate_of_malformed (hk : host.KeepsTrees) {q : Request} {root : NodeRef}
    {w : World σ} (tree : w.store.IsTree root) :
    (∀ p c w₁, (Position.start q root w).Reaches host p → p.Meets host c w₁ →
      (w₁.store.fault c).kind = .malformed →
      (evaluate host q (.node root)).runOn w = (.error c, w₁)) ∧
    (∀ p os r c w₁, (Position.start q root w).Reaches host p → p.Progress host os r →
      (∀ callee args, p.form ≠ .call callee args) → p.form.HostFails host r.world os c w₁ →
      (w₁.store.fault c).kind = .malformed →
      (∃ named o x s, w₁.store.namedText (.fault c) = .ok named ∧ p.Settles host o s ∧
        o.result = .raised (.fault x) ∧ (s.world.store.fault x).kind = .failedCall ∧
        (s.world.store.fault x).cause? = some (.fault c)) ∨
      ∃ m e w', w₁.store.namedText (.fault c) = .error m ∧
        (Act.ofAttempt (Attempt.misuse m) : Act σ FaultRef).runOn w₁ = (.error e, w') ∧
        (evaluate host q (.node root)).runOn w = (.error e, w')) ∧
    (host.Answers q.options.debugTrace → ∀ e,
      (∃ o w', (evaluate host q (.node root)).runOn w = (.ok o, w') ∧
        o.result = .raised (.fault e) ∧ (w'.store.fault e).kind = .malformed) ↔
      ∃ p, ReflTransGen (Position.HandsOn host) (.start q root w) p ∧ p.Presents host e) := by
  have sound := Position.isSound_start q tree
  refine ⟨fun p c w₁ reached meets malformed => ?_,
    fun p os r c w₁ reached progress notCall failed malformed => ?_, fun answers e => ⟨?_, ?_⟩⟩
  · have psound := Position.isSound_of_reaches reached sound hk
    exact (runOn_evaluate_eq_error_iff hk tree).2 ⟨p, reached, meets.escapes psound hk malformed⟩
  · obtain caught | ⟨m, e, w', shown, reported, escapes⟩ :=
      Position.caught_of_hostFails progress notCall failed malformed
        (Position.isSound_of_reaches reached sound hk) hk
    · exact .inl caught
    · exact .inr ⟨m, e, w', shown, reported,
        (runOn_evaluate_eq_error_iff hk tree).2 ⟨p, reached, escapes⟩⟩
  · rintro ⟨o, w', h, raised, malformed⟩
    rw [Position.runOn_evaluate] at h
    rcases ending : (Position.start q root w).ending host with ⟨result, r⟩
    rw [ending] at h
    cases h
    exact Position.exists_presents sound hk answers ending raised malformed
  · rintro ⟨p, path, presents⟩
    obtain ⟨o, r, settled, raised, malformed⟩ := presents.settles
    have isRaised : o.isRaised = true := by rw [Outcome.isRaised, raised]
    obtain ⟨r', ending, kinds⟩ :=
      Position.ending_of_handsOn path sound hk answers settled isRaised
    refine ⟨o, r'.world, ?_, raised, (kinds e).trans malformed⟩
    rw [Position.runOn_evaluate, ending]

/-- An operator that tests an object, and a raising node that holds the first fault. -/
def brokenTrees : Attempt NodeRef := do
  let _ ← testingTree
  Attempt.node (.raise (.fault ⟨0⟩)) .null

/-- A store with the report of a broken tree. -/
def brokenStore : Store :=
  { Store.empty with
    faults := #[⟨.malformed, .tuple [.str "broken" Store.noStamp] Store.noStamp, .null, .null,
      []⟩] }

/-- The world in which the trees were made. -/
def brokenWorld : World Unit :=
  ⟨(brokenTrees.runOn brokenStore).2, .empty, #[], ()⟩

theorem isTree_brokenWorld :
    brokenWorld.store.IsTree ⟨1⟩ ∧ brokenWorld.store.IsTree ⟨2⟩ := by
  have tested : testingTree.runOn brokenStore = (.ok ⟨1⟩, (testingTree.runOn brokenStore).2) := rfl
  have built := Attempt.isBuilt_of_doubled (Store.knows_all rfl) (by decide) tested
  have held : ∀ v ∈ (Form.raise (.fault ⟨0⟩)).values,
      (testingTree.runOn brokenStore).2.Knows v := by
    intro v hv
    obtain rfl := List.mem_singleton.1 hv
    exact Store.knows_fault (by decide)
  have raises : (Attempt.node (.raise (.fault ⟨0⟩)) .null).runOn (testingTree.runOn brokenStore).2 =
      (.ok ⟨2⟩, brokenWorld.store) := rfl
  obtain ⟨le, built'⟩ := Attempt.isBuilt_of_node held nofun raises
  exact ⟨(built.mono le).tree, built'.tree⟩

/-- The report that the truth test ends with becomes the cause of a failed call, and the one that
the raising node holds is returned. -/
theorem runOn_evaluate_of_broken :
    refusingHost.KeepsTrees ∧ brokenWorld.store.IsTree ⟨1⟩ ∧ brokenWorld.store.IsTree ⟨2⟩ ∧
    (∃ o w', (evaluate refusingHost .standard (.node ⟨1⟩)).runOn brokenWorld = (.ok o, w') ∧
      o.result = .raised (.fault ⟨1⟩) ∧ (w'.store.fault ⟨1⟩).kind = .failedCall ∧
      (w'.store.fault ⟨1⟩).cause? = some (.fault ⟨0⟩)) ∧
    ∃ o w', (evaluate refusingHost .standard (.node ⟨2⟩)).runOn brokenWorld = (.ok o, w') ∧
      o.result = .raised (.fault ⟨0⟩) ∧ (w'.store.fault ⟨0⟩).kind = .malformed := by
  obtain ⟨testing, raising⟩ := isTree_brokenWorld
  refine ⟨keepsTrees_refusingHost, testing, raising, ⟨_, _, rfl, rfl, rfl, rfl⟩, ?_⟩
  let p := Position.start .standard ⟨2⟩ brokenWorld
  have entered : p.Progress refusingHost [] ((enterNode refusingHost p.value).runOn p.run).2 :=
    .entered (by decide) rfl
  have presents : p.Presents refusingHost ⟨0⟩ := .held entered rfl rfl
  have told : refusingHost.Answers (.bool false) := answers_of_isHosted_eq_false rfl
  exact ((runOn_evaluate_of_malformed keepsTrees_refusingHost raising).2.2 told ⟨0⟩).2
    ⟨p, .refl, presents⟩

end Fallback
