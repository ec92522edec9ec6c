import Fallback.Proofs.Comparison
import Fallback.Proofs.Course
import Fallback.Proofs.Provenance

/-!
What an evaluation leaves unchanged.

An evaluation adds to the store; of what was made before it changes nothing itself, neither a node
nor a fault. What the host changes in its turns is its own affair, so the results say of a part of
the world that it stays as it is between these turns: `Host.AloneChanges`. A place is attached to a
fault only if it was made during the evaluation, because a raising node raises a copy of the
recoverable fault that it holds. The one way around this is a fault with a way of its own to be
copied that gives a fault made before: `Position.HandsOut`.
-/
namespace Fallback

open Relation (ReflTransGen)

variable {σ α : Type} {host : Host σ}

/-! ## Turns of the host -/

/-- One turn of the host: a routine runs, or an object tells its truth. -/
inductive Host.Turn (host : Host σ) (w : World σ) : World σ → Prop
  | run (r : RoutineRef) (args : List Value) : host.Turn w (host.run r args w).2
  | truth (o : ObjectRef) : host.Turn w (host.truth o w).2

/-- From the first world to the second only turns of the host change what is seen of the world:
between them it stays as it is, and so does the state of the host. A host that notes its turns in
its state can therefore tell which ones they were. -/
def Host.AloneChanges (host : Host σ) (view : World σ → α) : World σ → World σ → Prop :=
  ReflTransGen fun w w' => host.Turn w w' ∨ (view w' = view w ∧ w'.host = w.host)

/-- A fault as it is in a world. -/
def faultIn (x : FaultRef) (w : World σ) : Fault :=
  w.store.fault x

section Turns

variable {view : World σ → α} {w w' : World σ} {x : FaultRef} {r r' : Run σ}

/-- What no turn of the host changes is not changed. -/
theorem Host.AloneChanges.eq (h : host.AloneChanges view w w')
    (keeps : ∀ {w w'}, host.Turn w w' → view w' = view w) : view w' = view w := by
  induction h with
  | refl => rfl
  | tail _ step ih => exact (step.elim keeps And.left).trans ih

theorem Host.AloneChanges.of_eq (same : view w' = view w) (state : w'.host = w.host) :
    host.AloneChanges view w w' :=
  .single (.inr ⟨same, state⟩)

theorem Store.Change.nodes_eq {s t : Store} (h : s.Change t) : t.nodes = s.nodes := by
  cases h <;> rfl

theorem Store.nodes_attachPlace (s : Store) (v : Value) (o : Outcome) :
    (s.attachPlace v o).nodes = s.nodes := by
  unfold attachPlace
  split
  · dsimp only
    split <;> rfl
  · rfl

/-- An evaluation does nothing to the nodes. -/
theorem Run.Leads.aloneChanges_nodes (h : r.Leads host r') :
    host.AloneChanges (fun w => w.store.nodes) r.world r'.world := by
  induction h with
  | refl => exact .refl
  | @tail r₁ r₂ _ step ih =>
    refine ih.trans ?_
    cases step with
    | place v o => exact Host.AloneChanges.of_eq (Store.nodes_attachPlace _ _ _) rfl
    | quiet h =>
      cases h with
      | frame | enter | exit => exact Host.AloneChanges.of_eq rfl rfl
      | change h =>
        cases h with
        | log record => exact Host.AloneChanges.of_eq rfl rfl
        | world h =>
          cases h with
          | store h => exact Host.AloneChanges.of_eq h.nodes_eq rfl
          | run callee args => exact .single (.inl (.run callee args))
          | truth o => exact .single (.inl (.truth o))

theorem Store.Change.fault_eq {s t : Store} (h : s.Change t) (made : x.index < s.faults.size) :
    t.fault x = s.fault x := by
  cases h with
  | fault e => exact fault_addFault_of_lt e made
  | stamp | outcome | item | invocation => rfl

/-- Quiet steps do nothing to a fault that was made before. -/
theorem Run.Quiet.aloneChanges (hk : host.KeepsTrees) (h : ReflTransGen (Run.Quiet host) r r')
    (made : x.index < r.world.store.faults.size) :
    host.AloneChanges (faultIn x) r.world r'.world := by
  suffices x.index < r'.world.store.faults.size ∧
      host.AloneChanges (faultIn x) r.world r'.world from this.2
  induction h with
  | refl => exact ⟨made, .refl⟩
  | @tail r₁ r₂ _ step ih =>
    obtain ⟨there, changes⟩ := ih
    refine ⟨((step.le hk).kind there).1, changes.trans ?_⟩
    cases step with
    | frame | enter | exit => exact Host.AloneChanges.of_eq rfl rfl
    | change h =>
      cases h with
      | log record => exact Host.AloneChanges.of_eq rfl rfl
      | world h =>
        cases h with
        | store h => exact Host.AloneChanges.of_eq (h.fault_eq there) rfl
        | run callee args => exact .single (.inl (.run callee args))
        | truth o => exact .single (.inl (.truth o))

theorem Run.Change.aloneChanges (hk : host.KeepsTrees) (h : ReflTransGen (Run.Change host) r r')
    (made : x.index < r.world.store.faults.size) :
    host.AloneChanges (faultIn x) r.world r'.world :=
  Run.Quiet.aloneChanges hk (ReflTransGen.mono (fun _ _ step => .change step) _ _ h) made

/-- Attaching a place does nothing to a fault that is not raised, or that no place is attached
to. -/
theorem Store.fault_attachPlace_of_not_raised {s : Store} {v : Value} {o : Outcome}
    (free : o.result = .raised (.fault x) → (s.fault x).kind.isLocatable = false) :
    (s.attachPlace v o).fault x = s.fault x := by
  unfold attachPlace
  split
  · next e raised =>
    dsimp only
    split
    · next attaches =>
      by_cases same : x = e
      · subst same
        simp [Fault.awaitsPlace, free raised] at attaches
      · exact fault_locate_of_ne s _ same
    · rfl
  · rfl

/-- Leaving a node does nothing to such a fault. -/
theorem leaveNode_aloneChanges (hk : host.KeepsTrees) {v : Value} {kind : String} {o : Outcome}
    (made : x.index < r.world.store.faults.size)
    (free : o.result = .raised (.fault x) → (r.world.store.fault x).kind.isLocatable = false) :
    host.AloneChanges (faultIn x) r.world ((leaveNode host v kind o).runOn r).2.world := by
  let placed : Run σ := { r with world := { r.world with store := r.world.store.attachPlace v o } }
  have same : host.AloneChanges (faultIn x) r.world placed.world :=
    Host.AloneChanges.of_eq (Store.fault_attachPlace_of_not_raised free) rfl
  have there : x.index < placed.world.store.faults.size :=
    ((Store.le_attachPlace r.world.store v o).kind made).1
  exact same.trans (Run.Quiet.aloneChanges hk (quiet_leaveNode v kind o r) there)

end Turns

/-! ## New faults -/

section News

variable {f : Form} {os : List Outcome} {c e x : FaultRef} {o : Outcome} {r r' : Run σ}
  {w w' : World σ}

/-- What a guard makes is new. -/
theorem runOn_guardFault_new {letsThrough : FaultKind → Bool} {message : String → String}
    (h : (guardFault letsThrough message c).runOn w = (.ok e, w')) :
    e = ⟨w.store.faults.size⟩ := by
  rw [guardFault, Work.runOn_ofRun] at h
  split at h
  · cases h
  · split at h
    · cases h
      rfl
    · cases h

theorem Form.HostFails.makes (h : f.HostFails host w os c w') :
    ReflTransGen (Change host) w w' := by
  cases h with
  | invocation _ _ _ failed => exact (composed_invoke _ _).makes.of_run failed
  | operatorTest _ failed => exact (composed_truthTest _).makes.of_run failed
  | choiceTest _ failed => exact (composed_truthTest _).makes.of_run failed

/-- The failed call that is raised where the host fails is new. -/
theorem Form.HostFails.new (hk : host.KeepsTrees) (failed : f.HostFails host r.world os c w)
    (h : (f.next host os).runOn r = (.ok (.finish o), r'))
    (raised : o.result = .raised (.fault e)) :
    r.world.store.faults.size ≤ e.index := by
  rw [failed.next] at h
  obtain ⟨made, -⟩ := runOn_make_eq_ok.1 h
  obtain ⟨x, w₁, guarded, made⟩ := Work.runOn_bind_eq_ok.1 made
  obtain ⟨same, -⟩ := runOn_raised_eq_ok made raised
  cases same
  rw [runOn_guardFault_new guarded]
  exact Store.size_le_of_le (Change.le_of_reflTransGen failed.makes hk)

/-- What a raising node raises of a recoverable fault is new, unless the fault has a way of its own
to be copied. -/
theorem runOn_copyOf_new {v : Value} (h : (copyOf host x).runOn w = (.ok v, w'))
    (plain : w.store.attribute? (.fault x) copyName = none) : v = .fault ⟨w.store.faults.size⟩ := by
  rw [runOn_copyOf, plain] at h
  cases h
  rfl

/-- A fault that a rule raises is new, unless a raising node holds it or a recoverable fault that a
raising node holds has a way of its own to be copied. -/
theorem Form.Raises.new (hk : host.KeepsTrees) (h : f.Raises host r os (.fault e) w')
    (decided : (f.next host os).runOn r = (.ok (.finish o), r'))
    (raised : o.result = .raised (.fault e)) :
    r.world.store.faults.size ≤ e.index ∨
    (f = .raise (.fault e) ∧ (r.world.store.fault e).kind.isLocatable = false) ∨
    ∃ y way w, f = .raise (.fault y) ∧ (r.world.store.fault y).kind.isLocatable = true ∧
      r.world.store.attribute? (.fault y) copyName = some way ∧
      (invoke host way []).runOn r.world = (.ok (.fault e), w) := by
  cases h with
  | @unbound name t os _ _ named free kind =>
    have looked : (do return Move.finish (← Eval.ofAct (lookup r.frame.vars name)) :
        Eval σ Move).runOn r = (.ok (.finish o), r') := decided
    have made := (runOn_make_eq_ok.1 looked).1
    rw [runOn_lookup named, free] at made
    obtain ⟨same, -⟩ := runOn_raised_eq_ok made raised
    cases same
    exact .inl (Nat.le_refl _)
  | held fixed => exact .inr (.inl ⟨rfl, fixed⟩)
  | @copied y _ _ w _ locatable copy =>
    cases own : r.world.store.attribute? (.fault y) copyName with
    | none =>
      cases runOn_copyOf_new copy own
      exact .inl (Nat.le_refl _)
    | some way =>
      rw [runOn_copyOf, own] at copy
      exact .inr (.inr ⟨y, way, w, rfl, locatable, own, copy⟩)
  | @notCallable callee args first more _ _ complete succeeded uncallable kind =>
    have last := isRaised_getLastD succeeded
    rw [Form.next, nextOfCall_of_complete last (Nat.le_of_eq complete.symm),
      runOn_make_eq_ok] at decided
    obtain ⟨c, s, named, ⟨e, rfl⟩, made⟩ := runOn_callValue_of_not_callable uncallable
      (more.map Outcome.value) r.world
    rw [made] at decided
    obtain ⟨same, -⟩ := runOn_raised_eq_ok decided.1 raised
    cases same
    have le : r.world.store ≤ (r.world.store.addStamp.2.addStamp.2.addFault e).2 :=
      le_trans (le_trans Store.Change.stamp.le Store.Change.stamp.le) (Store.Change.fault e).le
    exact .inl (Store.size_le_of_le le)
  | hostFailed failed kind cause => exact .inl (failed.new hk decided raised)

end News

namespace Position

variable {p c : Position σ} {os : List Outcome} {o : Outcome} {r r' : Run σ} {x y z : FaultRef}

/-! ## Nothing is changed -/

/-- The visit is to a raising node whose recoverable fault has a way of its own to be copied, and
what that gives is the fault. -/
inductive HandsOut (host : Host σ) (p : Position σ) (x : FaultRef) : Prop
  | intro {os r y way w} (progress : p.Progress host os r) (form : p.form = .raise (.fault y))
      (locatable : (r.world.store.fault y).kind.isLocatable = true)
      (own : r.world.store.attribute? (.fault y) copyName = some way)
      (gives : (invoke host way []).runOn r.world = (.ok (.fault x), w))

/-- A fault that was made before and that nobody hands out is not raised by a rule, unless no place
can be attached to it. -/
theorem isLocatable_of_finish (hk : host.KeepsTrees) (sound : p.IsSound)
    (progress : p.Progress host os r) (made : x.index < r.world.store.faults.size)
    (kept : ¬p.HandsOut host x)
    (decided : (p.form.next host os).runOn r = (.ok (.finish o), r'))
    (raised : o.result = .raised (.fault x)) :
    (r'.world.store.fault x).kind.isLocatable = false := by
  have fit := sound.tree.whole.fit.mono (progress.push_eq sound hk).2
  have raises := Form.raises_of_next fit progress.known decided raised
  have le := Run.Change.le_of_reflTransGen ((p.form.makes_next os).of_run decided) hk
  obtain new | ⟨-, fixed⟩ | ⟨y, way, w, form, locatable, own, gives⟩ := raises.new hk decided raised
  · omega
  · rw [(le.kind made).2]
    exact fixed
  · exact absurd (.intro progress form locatable own gives) kept

/-- A visit spares a fault: only turns of the host change it, and the visit does not raise it unless
no place can be attached to it. -/
structure Spares (host : Host σ) (x : FaultRef) (p : Position σ) : Prop where
  alone : host.AloneChanges (faultIn x) p.run.world (p.ending host).2.world
  fixed {o : Outcome} {r : Run σ} (ending : p.ending host = (.ok o, r))
    (raised : o.result = .raised (.fault x)) : (r.world.store.fault x).kind.isLocatable = false

/-- A visit goes on without doing anything to a fault that was made before, if the visits that it
makes spare the fault; and if its last operand raises the fault, no place can be attached to it. -/
theorem Progress.aloneChanges (h : p.Progress host os r) (hk : host.KeepsTrees) (sound : p.IsSound)
    (made : x.index < p.run.world.store.faults.size)
    (below : ∀ {slot : Nat} {c : Position σ}, p.Child host slot c →
      x.index < c.run.world.store.faults.size → Spares host x c) :
    host.AloneChanges (faultIn x) p.run.world r.world ∧
      ∀ o ∈ os.getLast?, o.result = .raised (.fault x) →
        (r.world.store.fault x).kind.isLocatable = false := by
  induction h with
  | entered budget enter =>
    exact ⟨Run.Quiet.aloneChanges hk ((quiet_enterNode _).of_run enter) made, nofun⟩
  | @visited before r₁ slot v _ o _ progress decided visit ih =>
    obtain ⟨c, rfl, child, -, rfl, cending⟩ := progress.child sound hk decided
    have there := (Run.Leads.le progress.leads hk).kind made |>.1
    have changes := (p.form.makes_next _).of_run decided
    have there' := (Run.Change.le_of_reflTransGen changes hk).kind there |>.1
    have spares := below child there'
    have alone := spares.alone
    rw [cending, visit] at alone
    refine ⟨(ih.1.trans (Run.Change.aloneChanges hk changes there)).trans alone, ?_⟩
    intro o' last
    rw [List.getLast?_concat] at last
    cases last
    exact spares.fixed (cending.trans visit)

/-- Once the rule has ended, what lasts lasts, and a good end has the outcome of the rule. -/
theorem le_leaving (hk : host.KeepsTrees) {result : Except FaultRef Outcome}
    (h : p.leaving host (.ok o, r) = (result, r')) :
    r.world.store ≤ r'.world.store ∧ ∀ o', result = .ok o' → o' = o := by
  have steps : (do leaveNode host p.value p.kind o; return o : Eval σ Outcome).Makes
      (Run.Step host) := (steps_leaveNode _ _ _).bind fun _ => Work.makes_pure o
  refine ⟨Run.Leads.le (steps.of_run h) hk, ?_⟩
  rintro o' rfl
  obtain ⟨u, r₁, -, done⟩ := Work.runOn_bind_eq_ok.1 h
  cases done
  rfl

/-- Once the rule has ended, a fault that was made before stays as it is, unless it is raised and a
place can be attached to it. -/
theorem leaving_aloneChanges (hk : host.KeepsTrees) (made : x.index < r.world.store.faults.size)
    (free : o.result = .raised (.fault x) → (r.world.store.fault x).kind.isLocatable = false)
    {result : Except FaultRef Outcome} (h : p.leaving host (.ok o, r) = (result, r')) :
    host.AloneChanges (faultIn x) r.world r'.world := by
  have alone : host.AloneChanges (faultIn x) r.world
      ((leaveNode host p.value p.kind o).runOn r).2.world := leaveNode_aloneChanges hk made free
  rcases left : (leaveNode host p.value p.kind o).runOn r with ⟨e | u, r₁⟩
  · rw [left] at alone
    rw [leaving, Work.runOn_bind_error left] at h
    cases h
    exact alone
  · rw [left] at alone
    rw [leaving, Work.runOn_bind_ok left] at h
    cases h
    exact alone

/-- A visit spares a fault that was made before and that nobody hands out. -/
theorem spares_of_not_handsOut (hk : host.KeepsTrees) (sound : p.IsSound)
    (made : x.index < p.run.world.store.faults.size)
    (kept : ∀ c, p.Reaches host c → ¬c.HandsOut host x) : p.Spares host x := by
  -- the induction is on the budget, because the visits that a visit makes have a smaller one
  induction hb : p.budget using Nat.strongRecOn generalizing p with
  | ind b ih =>
    have below : ∀ {slot : Nat} {c : Position σ}, p.Child host slot c →
        x.index < c.run.world.store.faults.size → Spares host x c := by
      intro slot c child there
      have less : c.budget < b := by
        have := child.budget
        omega
      exact ih c.budget less (child.isSound sound hk) there
        (fun d reached => kept d (.head ⟨slot, child⟩ reached)) rfl
    have onwards : ∀ {os r}, p.Progress host os r → x.index < r.world.store.faults.size ∧
        host.AloneChanges (faultIn x) p.run.world r.world := fun progress =>
      ⟨(Run.Leads.le progress.leads hk).kind made |>.1,
        (progress.aloneChanges hk sound made below).1⟩
    obtain ⟨e, r, enter, ends⟩ | ⟨q, ends, ruleEnds⟩ := ending_cases sound hk
    · refine ⟨?_, fun ending => ?_⟩
      · rw [ends]
        exact Run.Quiet.aloneChanges hk ((quiet_enterNode _).of_run enter) made
      · rw [ends] at ending
        cases ending
    · cases ruleEnds with
      | breaks progress decided =>
        obtain ⟨there, alone⟩ := onwards progress
        have changes := (p.form.makes_next _).of_run decided
        refine ⟨?_, fun ending => ?_⟩
        · rw [ends]
          exact alone.trans (Run.Change.aloneChanges hk changes there)
        · rw [ends] at ending
          cases ending
      | breaksBelow progress decided visit =>
        obtain ⟨there, alone⟩ := onwards progress
        have changes := (p.form.makes_next _).of_run decided
        obtain ⟨c, rfl, child, -, rfl, cending⟩ := progress.child sound hk decided
        have there' := (Run.Change.le_of_reflTransGen changes hk).kind there |>.1
        have spared := (below child there').alone
        rw [cending, visit] at spared
        refine ⟨?_, fun ending => ?_⟩
        · rw [ends]
          exact (alone.trans (Run.Change.aloneChanges hk changes there)).trans spared
        · rw [ends] at ending
          cases ending
      | @settles o r settled =>
        obtain ⟨os, r₀, progress, decided⟩ := settled
        obtain ⟨there, alone⟩ := onwards progress
        have changes := Form.changes_of_end decided
        have there' := (Run.Change.le_of_reflTransGen changes hk).kind there |>.1
        have free : o.result = .raised (.fault x) →
            (r.world.store.fault x).kind.isLocatable = false := by
          intro raised
          obtain kept' | finished := decided
          · -- the last operand has raised the fault
            obtain ⟨isLast, -, rfl⟩ := Form.handsOn_of_keep kept' raised
            exact (progress.aloneChanges hk sound made below).2 o isLast raised
          · exact isLocatable_of_finish hk sound progress there (kept p .refl) finished raised
        refine ⟨?_, fun ending raised => ?_⟩
        · rw [ends]
          exact (alone.trans (Run.Change.aloneChanges hk changes there)).trans
            (leaving_aloneChanges hk there' free rfl)
        · rw [ends] at ending
          obtain ⟨le, same⟩ := le_leaving hk ending
          rw [same _ rfl] at raised
          rw [(le.kind there').2]
          exact free raised

end Position

/-! ## Copies -/

section Equivalence

/-- Of the fault that an outcome raises at most the place is changed when a place is attached. -/
theorem Store.fault_attachPlace_of_raised {s : Store} {z : FaultRef} {o : Outcome} (v : Value)
    (made : z.index < s.faults.size) (raised : o.result = .raised (.fault z)) :
    ∃ place, (s.attachPlace v o).fault z = { s.fault z with place } := by
  simp only [attachPlace, raised]
  split
  · exact ⟨_, fault_locate_self _ made⟩
  · exact ⟨(s.fault z).place, rfl⟩

end Equivalence

namespace Position

variable {p c d : Position σ} {o : Outcome} {r r' : Run σ} {x y z : FaultRef}

/-- The visit is to a raising node that holds a recoverable fault, and when the node was entered the
fault had no way of its own to be copied. -/
structure Copies (host : Host σ) (p : Position σ) (y : FaultRef) (r : Run σ) : Prop where
  entered : p.Progress host [] r
  form : p.form = .raise (.fault y)
  locatable : (r.world.store.fault y).kind.isLocatable = true
  plain : r.world.store.attribute? (.fault y) copyName = none

/-- The visit copies a fault: its rule has made a fault that has everything in common with the one
held, and the visit can end well only with the outcome that raises it. When the node is left, a
place may be attached to the new fault, and nothing is done to the one held. -/
structure RaisesCopy (host : Host σ) (p : Position σ) (y z : FaultRef) (r r' : Run σ)
    (o : Outcome) : Prop where
  copies : p.Copies host y r
  settled : p.Settles host o r'
  raised : o.result = .raised (.fault z)
  new : z.index = r.world.store.faults.size
  made : z.index < r'.world.store.faults.size
  ne : z ≠ y
  copy : r'.world.store.fault z = r.world.store.fault y
  held : r'.world.store.fault y = r.world.store.fault y
  equivalent {items stamp} (args : (r.world.store.fault y).args = .tuple items stamp) :
    r'.world.store.areEquivalent (.fault z) (.fault y) = .ok true
  placed : ∃ place, (r'.noted p.value o).store.fault z = { r.world.store.fault y with place }
  unplaced : (r'.noted p.value o).store.fault y = r.world.store.fault y
  only {o' r''} (ending : p.ending host = (.ok o', r'')) : o' = o

/-- A raising node raises a copy of the recoverable fault that it holds. -/
theorem Copies.raisesCopy (copies : p.Copies host y r) (hk : host.KeepsTrees) (sound : p.IsSound) :
    ∃ z o r', p.RaisesCopy host y z r r' o := by
  have ⟨entered, form, locatable, plain⟩ := copies
  let s := (r.world.store.addFault (r.world.store.fault y)).2
  let z : FaultRef := ⟨r.world.store.faults.size⟩
  let o : Outcome := ⟨⟨s.outcomes.size⟩, .raised (.fault z)⟩
  let r' : Run σ :=
    { r with world := { r.world with store := (s.addOutcome (.raised (.fault z))).2 } }
  have made : y.index < r.world.store.faults.size := by
    have fit : p.form.IsFit r.world.store :=
      sound.tree.whole.fit.mono (entered.push_eq sound hk).2
    rw [form] at fit
    obtain ⟨e, same, there, -⟩ := fit
    cases same
    exact there
  have raises : (evalRaise host (.fault y)).runOn r.world = (.ok o, r'.world) := by
    rw [runOn_evalRaise, if_pos locatable, Work.runOn_bind, runOn_copyOf, plain]
    rfl
  have settled : p.Settles host o r' := by
    refine ⟨[], r, entered, .inr ?_⟩
    rw [form]
    exact runOn_make_eq_ok.2 ⟨raises, rfl⟩
  have ne : z ≠ y := by
    rintro rfl
    exact absurd made (Nat.lt_irrefl _)
  have copy : r'.world.store.fault z = r.world.store.fault y :=
    Store.fault_addFault_self r.world.store _
  have held : r'.world.store.fault y = r.world.store.fault y :=
    Store.fault_addFault_of_lt _ made
  have there : z.index < r'.world.store.faults.size := by
    show r.world.store.faults.size < (r.world.store.faults.push _).size
    rw [Array.size_push]
    exact Nat.lt_succ_self _
  refine ⟨z, o, r', copies, settled, rfl, rfl, there, ne, copy, held, fun args => ?_, ?_, ?_,
    fun ending => ?_⟩
  · exact Store.areEquivalent_of_fault_eq (copy.trans held.symm) (held ▸ args)
  · obtain ⟨place, placed⟩ :=
      Store.fault_attachPlace_of_raised (o := o) p.value there rfl
    exact ⟨place, placed.trans (by rw [copy])⟩
  · refine (Store.fault_attachPlace_of_not_raised fun raised => ?_).trans held
    exact absurd (Value.fault.inj (Result.raised.inj raised)) ne
  · rw [ending_of_ruleEnds sound hk (.settles settled)] at ending
    exact (le_leaving hk ending).2 _ rfl

/-- A raising node has no operands. -/
theorem Copies.eq_of_reaches (copies : c.Copies host y r) (h : c.Reaches host d) : d = c := by
  obtain rfl | ⟨c', ⟨slot, child⟩, -⟩ := h.cases_head
  · rfl
  · obtain ⟨os, r₁, -, decided⟩ := child.decided
    have operand := Form.next_visit_mem decided
    rw [copies.form] at operand
    exact absurd operand (List.not_mem_nil)

/-- When a visit that has raised a copy has ended, there are more faults than when it began. -/
theorem Copies.size_lt (copies : c.Copies host y r) (hk : host.KeepsTrees) (sound : c.IsSound)
    (ending : c.ending host = (.ok o, r')) :
    r.world.store.faults.size < r'.world.store.faults.size := by
  obtain ⟨z, o', r₁, raises⟩ := copies.raisesCopy hk sound
  rw [ending_of_ruleEnds sound hk (.settles raises.settled)] at ending
  have more := Store.size_le_of_le (le_leaving hk ending).1
  have made := raises.made
  rw [raises.new] at made
  omega

/-- What is raised where a copy was raised before is another fault. -/
theorem Copies.size_lt_of_precedes (copies : c.Copies host x r) (copies' : d.Copies host y r')
    (before : p.Precedes host c d) (hk : host.KeepsTrees) (sound : p.IsSound) (csound : c.IsSound) :
    r.world.store.faults.size < r'.world.store.faults.size := by
  obtain ⟨o, r₁, ending, leads⟩ := before.ended sound hk
  have less := copies.size_lt hk csound ending
  have later : r₁.Leads host r' := leads.trans copies'.entered.leads
  have le := Store.size_le_of_le (Run.Leads.le later hk)
  omega

/-- Two visits never raise the same copy. -/
theorem Copies.size_ne (copies : c.Copies host x r) (copies' : d.Copies host y r') (ne : c ≠ d)
    (hc : p.Reaches host c) (hd : p.Reaches host d) (hk : host.KeepsTrees) (sound : p.IsSound) :
    r.world.store.faults.size ≠ r'.world.store.faults.size := by
  have csound := isSound_of_reaches hc sound hk
  have dsound := isSound_of_reaches hd sound hk
  obtain below | below | before | before := reaches_or_precedes hc hd
  · exact absurd (copies.eq_of_reaches below).symm ne
  · exact absurd (copies'.eq_of_reaches below) ne
  · exact Nat.ne_of_lt (copies.size_lt_of_precedes copies' before hk sound csound)
  · exact (Nat.ne_of_lt (copies'.size_lt_of_precedes copies before hk sound dsound)).symm

end Position

/-! ## No residue -/

/-- An evaluation leaves nothing behind on what was made before. Of the nodes only turns of the host
change anything, and so of every fault that was made before, unless a recoverable fault with a way
of its own to be copied hands it out. Every visit to a raising node that holds a recoverable fault
without such a way raises a copy of it, and no two visits raise the same one. -/
theorem runOn_evaluate_aloneChanges (hk : host.KeepsTrees) {q : Request} {root : NodeRef}
    {w w' : World σ} (tree : w.store.IsTree root) {result : Except FaultRef Outcome}
    (h : (evaluate host q (.node root)).runOn w = (result, w')) :
    host.AloneChanges (fun w => w.store.nodes) w w' ∧
    (∀ x : FaultRef, x.index < w.store.faults.size →
      host.AloneChanges (faultIn x) w w' ∨
        ∃ p, (Position.start q root w).Reaches host p ∧ p.HandsOut host x) ∧
    (∀ p y r, (Position.start q root w).Reaches host p → p.Copies host y r →
      ∃ z o r', p.RaisesCopy host y z r r' o) ∧
    ∀ p p', (Position.start q root w).Reaches host p →
      (Position.start q root w).Reaches host p' → p ≠ p' →
      ∀ y z r r₁ o, p.RaisesCopy host y z r r₁ o →
      ∀ y' z' r' r₁' o', p'.RaisesCopy host y' z' r' r₁' o' → z ≠ z' := by
  have sound := Position.isSound_start q tree
  rcases ending : (Position.start q root w).ending host with ⟨result, r⟩
  obtain rfl : r.world = w' := by
    rw [Position.runOn_evaluate, ending] at h
    exact (Prod.mk.inj h).2
  refine ⟨(Position.ending_leads ending).aloneChanges_nodes, fun x made => ?_, ?_, ?_⟩
  · by_cases kept : ∃ p, (Position.start q root w).Reaches host p ∧ p.HandsOut host x
    · exact .inr kept
    · have spares := Position.spares_of_not_handsOut hk sound made
        fun c reached handsOut => kept ⟨c, reached, handsOut⟩
      have alone := spares.alone
      rw [ending] at alone
      exact .inl alone
  · intro p y r reached copies
    exact copies.raisesCopy hk (Position.isSound_of_reaches reached sound hk)
  · intro p p' reached reached' ne y z r r₁ o raises y' z' r' r₁' o' raises' same
    have sizes := raises.copies.size_ne raises'.copies ne reached reached' hk sound
    rw [← raises.new, ← raises'.new, same] at sizes
    exact sizes rfl

/-- An operator that has a place, twice over the same node, which raises a fault. -/
def retryingTree : Attempt NodeRef :=
  Attempt.doubled (.raise (.str "lost" Store.noStamp)) .onFault (.position ⟨0⟩)

/-- The world in which the tree was made. -/
def retryingWorld : World Unit :=
  ⟨(retryingTree.runOn placeStore).2, .empty, #[], ()⟩

/-- The raising node is visited twice, and each visit raises a copy of its own. -/
theorem runOn_evaluate_of_retrying :
    let root := Position.start .standard ⟨1⟩ retryingWorld
    let w' := ((evaluate Host.idle .standard (.node ⟨1⟩)).runOn retryingWorld).2
    Host.idle.KeepsTrees ∧ retryingWorld.store.IsTree ⟨1⟩ ∧
    Host.idle.AloneChanges (fun w => w.store.nodes) retryingWorld w' ∧
    (Host.idle.AloneChanges (faultIn ⟨0⟩) retryingWorld w' ∨
      ∃ p, root.Reaches Host.idle p ∧ p.HandsOut Host.idle ⟨0⟩) ∧
    ∃ p p' r r' z z' r₁ r₁' o o', root.Reaches Host.idle p ∧ root.Reaches Host.idle p' ∧
      p.RaisesCopy Host.idle ⟨0⟩ z r r₁ o ∧ p'.RaisesCopy Host.idle ⟨0⟩ z' r' r₁' o' ∧ z ≠ z' := by
  intro root w'
  have made : retryingTree.runOn placeStore = (.ok ⟨1⟩, retryingWorld.store) := rfl
  have tree : retryingWorld.store.IsTree ⟨1⟩ :=
    (Attempt.isBuilt_of_doubled (Store.knows_all rfl) (by decide) made).tree
  let opened : Run Unit := ⟨{ root.run.frame with stack := [.node ⟨1⟩], active := [.node ⟨1⟩] },
    retryingWorld⟩
  let within : Run Unit :=
    ⟨{ root.run.frame with stack := [.node ⟨0⟩, .node ⟨1⟩], active := [.node ⟨0⟩, .node ⟨1⟩] },
      retryingWorld⟩
  let o : Outcome := ⟨⟨0⟩, .raised (.fault ⟨1⟩)⟩
  let copied : Store := (retryingWorld.store.addFault (retryingWorld.store.fault ⟨0⟩)).2
  let again : World Unit := { retryingWorld with store := (copied.addOutcome o.result).2 }
  let first : Position Unit := ⟨127, ⟨0⟩, opened⟩
  let second : Position Unit := ⟨127, ⟨0⟩, ⟨opened.frame, again⟩⟩
  have entered : root.Progress Host.idle [] opened := .entered (by decide) rfl
  have visits : root.Visits Host.idle [] first := ⟨rfl, opened, 0, entered, rfl⟩
  have copies : first.Copies Host.idle ⟨0⟩ within := ⟨.entered (by decide) rfl, rfl, rfl, rfl⟩
  have settled : first.Settles Host.idle o { within with world := again } :=
    ⟨[], within, copies.entered, .inr rfl⟩
  have left : (leaveNode Host.idle first.value first.kind o).runOn { within with world := again } =
      (.ok (), second.run) := rfl
  have sound := visits.isSound (Position.isSound_start .standard tree) keepsTrees_idle
  have ending : first.ending Host.idle = (.ok o, second.run) :=
    (Position.ending_eq_ok_iff sound keepsTrees_idle).2 ⟨_, settled, left⟩
  have visits' : root.Visits Host.idle [o] second :=
    ⟨rfl, second.run, 1, .visited entered rfl ending, rfl⟩
  have copies' : second.Copies Host.idle ⟨0⟩ { within with world := again } :=
    ⟨.entered (by decide) rfl, rfl, rfl, rfl⟩
  have ne : first ≠ second := by
    intro same
    have sizes : first.run.world.store.faults.size = second.run.world.store.faults.size := by
      rw [same]
    exact absurd sizes (by decide)
  obtain ⟨nodes, faults, raising, apart⟩ :=
    runOn_evaluate_aloneChanges (q := .standard) keepsTrees_idle tree (Prod.eta _).symm
  obtain ⟨z, o₁, r₁, raises⟩ := raising _ _ _ visits.reaches copies
  obtain ⟨z', o₁', r₁', raises'⟩ := raising _ _ _ visits'.reaches copies'
  exact ⟨keepsTrees_idle, tree, nodes, faults ⟨0⟩ (by decide), first, second, within, _, z, z', r₁,
    r₁', o₁, o₁', visits.reaches, visits'.reaches, raises, raises',
    apart _ _ visits.reaches visits'.reaches ne _ _ _ _ _ raises _ _ _ _ _ raises'⟩

/-- A host whose routines hand out the first fault. -/
def lendingHost : Host Unit :=
  ⟨fun _ _ w => (.ok (.fault ⟨0⟩), w), fun _ w => (.ok true, w)⟩

theorem keepsTrees_lendingHost : lendingHost.KeepsTrees :=
  ⟨fun _ _ _ => le_refl _, fun _ _ => le_refl _⟩

/-- A store with a recoverable fault whose own way to be copied is a routine, and with a raising
node that holds it and has a place. -/
def lendingStore : Store :=
  { placeStore with
    faults := #[⟨.recoverable, .tuple [] Store.noStamp, .null, .null,
      [(copyName, .routine ⟨0⟩)]⟩]
    nodes := #[⟨.raise (.fault ⟨0⟩), .position ⟨0⟩, []⟩] }

/-- The world with this store. -/
def lendingWorld : World Unit :=
  ⟨lendingStore, .empty, #[], ()⟩

theorem isTree_lendingWorld : lendingWorld.store.IsTree ⟨0⟩ := by
  have whole : lendingWorld.store.IsWhole ⟨0⟩ :=
    ⟨by decide, ⟨⟨0⟩, rfl, by decide, rfl⟩, fun v hv => absurd hv (List.not_mem_nil)⟩
  intro m reached
  obtain rfl | ⟨k, step, -⟩ := reached.cases_head
  · exact whole
  · exact absurd step (List.not_mem_nil)

/-- The fault that a fault's own way to be copied hands out is given the place of the raising node,
though no turn of the host changes it. -/
theorem not_aloneChanges_of_lending :
    lendingHost.KeepsTrees ∧ lendingWorld.store.IsTree ⟨0⟩ ∧
    ¬lendingHost.AloneChanges (faultIn ⟨0⟩) lendingWorld
      ((evaluate lendingHost .standard (.node ⟨0⟩)).runOn lendingWorld).2 := by
  refine ⟨keepsTrees_lendingHost, isTree_lendingWorld, fun alone => ?_⟩
  have keeps : ∀ {w w' : World Unit}, lendingHost.Turn w w' →
      faultIn ⟨0⟩ w' = faultIn ⟨0⟩ w := by
    intro w w' turn
    cases turn <;> rfl
  have same := congrArg Fault.awaitsPlace (alone.eq keeps)
  have before : (faultIn ⟨0⟩ lendingWorld).awaitsPlace = true := rfl
  have after : (faultIn ⟨0⟩
      ((evaluate lendingHost .standard (.node ⟨0⟩)).runOn lendingWorld).2).awaitsPlace = false := by
    decide +kernel
  rw [before, after] at same
  cases same

end Fallback
