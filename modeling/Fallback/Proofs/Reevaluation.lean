import Fallback.Proofs.Echo
import Fallback.Proofs.Residue

/-!
Evaluations that are made again.

A second evaluation of a tree makes its faults afresh, copies what raising nodes hold and attaches
places, and yet it ends with an outcome that is equal to the first one and raised at the same
place: `runOn_evaluate_again`. `Position.Again` is the invariant, and `Position.Again.endsAgain`
follows the two evaluations in lockstep, by induction on the budget.

It takes a host that leaves alone what is there and answers in the same way what it is asked again
(`Position.Repeats`). A routine that returns the same each time may still attach a place to a fault
that the tree holds, and then the second evaluation fails at another line:
`not_equalEnds_of_moving`.
-/
namespace Fallback

open List (Forall₂)
open Relation (ReflTransGen)

variable {σ : Type} {host : Host σ}

/-! ## Attaching a place again -/

section Attaching

variable {base final s s' t : Store} {n : NodeRef} {o o' : Outcome} {x y : FaultRef}

/-- What the place of a node is attached to. -/
theorem Store.attachPlace_of_raised (raised : o.result = .raised (.fault x)) :
    s.attachPlace (.node n) o =
      if (s.fault x).awaitsPlace && s.HasLine n then s.locate x (s.placeOf (.node n)) else s := by
  rw [attachPlace, raised]
  rfl

/-- Attaching a place to a fault that was made later keeps what was there before. -/
theorem Store.Keeps.attachPlace (kept : base.Keeps s)
    (fresh : ∀ x, o.result = .raised (.fault x) → base.faults.size ≤ x.index) :
    base.Keeps (s.attachPlace (.node n) o) := by
  refine ⟨kept.toRetains.trans (s.ages_attachPlace _ _).toRetains, fun {z} made => ?_⟩
  rw [fault_attachPlace_of_not_raised, kept.fault made]
  intro raised
  exact absurd made (Nat.not_lt.2 (fresh z raised))

/-- Leaving a node settles what is raised, if the node tells a line. -/
theorem Store.awaitsPlace_attachPlace (made : x.index < s.faults.size)
    (raised : o.result = .raised (.fault x)) (line : s.HasLine n = true) :
    ((s.attachPlace (.node n) o).fault x).awaitsPlace = false := by
  rw [attachPlace_of_raised raised, line, Bool.and_true]
  cases awaits : (s.fault x).awaitsPlace with
  | true => exact awaitsPlace_locate made line
  | false => exact awaits

/-- The same fault gets no place in the second evaluation. -/
theorem Store.attachPlace_again (made : x.index < s.faults.size) (placed : s.IsPlaced n)
    (raised : o.result = .raised (.fault x)) (raised' : o'.result = .raised (.fault x))
    (early : (s.attachPlace (.node n) o).Ages base) (kept : base.Keeps s') :
    s'.attachPlace (.node n) o' = s' := by
  have attaches := s.ages_attachPlace (.node n) o
  have later := attaches.trans (early.trans kept.ages)
  rw [attachPlace_of_raised raised', later.line placed]
  cases line : s.HasLine n with
  | false => rw [Bool.and_false, if_neg Bool.false_ne_true]
  | true =>
    have settled := awaitsPlace_attachPlace made raised line
    have ended := (early.trans kept.ages).fault (attaches.le.kind made).1
    rw [ended.settled settled, Bool.false_and, if_neg Bool.false_ne_true]

/-- A fault that is new in each evaluation gets the same place in both. -/
theorem Renews.attachPlace (h : Renews base s s' x y) (later : s.Retains s')
    (placed : s.IsPlaced n) (raised : o.result = .raised (.fault x))
    (raised' : o'.result = .raised (.fault y)) :
    Renews base (s.attachPlace (.node n) o) (s'.attachPlace (.node n) o') x y := by
  have attaches := s.ages_attachPlace (.node n) o
  have attaches' := s'.ages_attachPlace (.node n) o'
  refine ⟨(attaches.le.kind h.made).1, h.fresh, (attaches'.le.kind h.made').1, ?_,
    fun untouched => ?_⟩
  · rw [(attaches.fault h.made).kind_eq, (attaches'.fault h.made').kind_eq, h.kind]
  · have place : (s.fault x).place = (s'.fault y).place := by
      refine h.place fun z made ne => ?_
      rw [untouched z (attaches.le.kind made).1 ne, Store.fault_attachPlace_of_not_raised]
      intro same
      rw [raised] at same
      cases same
      exact absurd rfl ne
    have awaits : (s'.fault y).awaitsPlace = (s.fault x).awaitsPlace := by
      rw [Fault.awaitsPlace, Fault.awaitsPlace, h.kind, place]
    rw [Store.attachPlace_of_raised raised, Store.attachPlace_of_raised raised', awaits,
      later.line placed, later.placeOf_eq placed.made]
    cases (s.fault x).awaitsPlace && s.HasLine n with
    | false => exact place
    | true =>
      simp only [if_true]
      rw [Store.fault_locate_self _ h.made, Store.fault_locate_self _ h.made']

/-- When a node is left, an outcome stays the same again, and in the second evaluation nothing
changes of what the first one left. -/
theorem Outcome.Echoes.attachPlace (h : o.Echoes base final s s' o') (placed : s.IsPlaced n)
    (early : (s.attachPlace (.node n) o).Ages base) (kept : base.Keeps s') :
    base.Keeps (s'.attachPlace (.node n) o') ∧
      o.Echoes base final (s.attachPlace (.node n) o) (s'.attachPlace (.node n) o') o' := by
  have attaches := s.ages_attachPlace (.node n) o
  have attaches' := s'.ages_attachPlace (.node n) o'
  have still := h.kept.mono attaches.toRetains
  have still' := h.kept'.mono attaches'.toRetains
  have result := h.result
  generalize first : o.result = result₁ at result
  generalize second : o'.result = result₂ at result
  cases result with
  | success =>
    refine ⟨kept.attachPlace fun x raised => ?_, still, still', ?_⟩
    · rw [second] at raised
      cases raised
    · rw [first, second]
      exact .success
  | @raised e _ echoes =>
    cases echoes with
    | same there =>
      refine ⟨?_, still, still', ?_⟩
      · by_cases isFault : ∃ x, e = .fault x
        · obtain ⟨x, rfl⟩ := isFault
          rwa [Store.attachPlace_again (there x rfl) placed first second early kept]
        · refine kept.attachPlace fun x raised => absurd ⟨x, ?_⟩ isFault
          rw [second] at raised
          cases raised
          rfl
      · rw [first, second]
        exact .raised (.same fun x same => attaches.has (there x same))
    | @renewed x y renews alike =>
      have later := (attaches.trans (early.trans kept.ages)).toRetains
      refine ⟨kept.attachPlace fun z raised => ?_, still, still', ?_⟩
      · rw [second] at raised
        cases raised
        exact renews.fresh
      · rw [first, second]
        exact .raised (.renewed (renews.attachPlace later placed first second) alike)

end Attaching

/-! ## Trees whose places are there -/

/-- The place of the node is there, and the arguments of a fault that it holds are a tuple. -/
structure Store.IsFirm (s : Store) (n : NodeRef) : Prop where
  placed : s.IsPlaced n
  held {x : FaultRef} (holds : s.form n = .raise (.fault x)) :
    ∃ items stamp, (s.fault x).args = .tuple items stamp

/-- All nodes of the tree are like that. -/
def Store.IsFirmTree (s : Store) (n : NodeRef) : Prop :=
  ∀ m, ReflTransGen s.Operand n m → s.IsFirm m

section Firm

variable {s t : Store} {n m : NodeRef}

theorem Store.IsFirm.mono (h : s.IsFirm n) (ages : s.Ages t) (whole : s.IsWhole n) :
    t.IsFirm n := by
  refine ⟨ages.isPlaced h.placed, fun {x} holds => ?_⟩
  rw [form_eq_of_le ages.le whole.made] at holds
  have fit := whole.fit
  rw [holds] at fit
  obtain ⟨_, same, there, -⟩ := fit
  cases same
  rw [(ages.fault there).args_eq]
  exact h.held holds

theorem Store.IsFirmTree.mono (h : s.IsFirmTree n) (ages : s.Ages t) (tree : s.IsTree n) :
    t.IsFirmTree n := fun m hm =>
  have reached := tree.reached ages.le hm
  (h m reached).mono ages (tree m reached)

theorem Store.IsFirmTree.operand (h : s.IsFirmTree n) (operand : s.Operand n m) :
    s.IsFirmTree m :=
  fun k hk => h k (.head operand hk)

end Firm

/-! ## Visits that are made again -/

/-- A node that the frame refuses is not entered, and this is reported. -/
theorem enterNode_of_refused (host : Host σ) {v : Value} {r : Run σ} {refusal : Frame.Refusal}
    (push : r.frame.push v = .error refusal) :
    (enterNode host v).runOn r =
      (.error ⟨r.world.store.faults.size⟩,
        ⟨r.frame, { r.world with
          store := (r.world.store.addStamp.2.addStamp.2.addFault
            (Attempt.faultAt r.world.store .malformed (r.world.store.placeOf v)
              refusal.message)).2 }⟩) :=
  enterNode_eq_error_iff.2 (.inl (runOn_openNode_of_refused push))

/-- A node that can be opened is entered if the debug switch tells its truth. -/
theorem enterNode_of_test {v : Value} {r : Run σ} {f : Frame} {b : Bool} {w : World σ}
    (push : r.frame.push v = .ok f) (tested : (truthTest host f.debug).runOn r.world = (.ok b, w)) :
    ∃ r', (enterNode host v).runOn r = (.ok (r.world.store.typeName v), r') := by
  rcases enter : (enterNode host v).runOn r with ⟨e | kind, r'⟩
  · obtain refused | ⟨g, push', failed, -⟩ := enterNode_eq_error_iff.1 enter
    · rw [runOn_openNode_of_push push] at refused
      cases refused
    · rw [push] at push'
      cases push'
      rw [tested] at failed
      cases failed
  · obtain ⟨rfl, -⟩ := enterNode_ok enter
    exact ⟨r', rfl⟩

/-- A node that is open is left if the debug switch tells its truth. -/
theorem leaveNode_of_test {v : Value} (kind : String) {o : Outcome} {r : Run σ} {f : Frame}
    {b : Bool} {w : World σ} (push : f.push v = .ok r.frame)
    (tested : (truthTest host r.frame.debug).runOn (r.noted v o) = (.ok b, w)) :
    ∃ r', (leaveNode host v kind o).runOn r = (.ok (), r') := by
  rcases leave : (leaveNode host v kind o).runOn r with ⟨e | u, r'⟩
  · obtain ⟨failed, -⟩ := (leaveNode_eq_error_iff push).1 leave
    rw [tested] at failed
    cases failed
  · exact ⟨r', rfl⟩

namespace Position

variable {base final : Store} {p p' c c' root root' : Position σ} {os os' : List Outcome}
  {o o' : Outcome} {r r' : Run σ}

/-- What the host is asked for in the course of a visit itself, and in which world. -/
inductive Asks (host : Host σ) (p : Position σ) : Ask → World σ → Prop
  | entering {f : Frame} (push : p.run.frame.push p.value = .ok f) :
    p.Asks host (.test p.run.frame.debug) p.run.world
  | deciding {os : List Outcome} {r : Run σ} {a : Ask} (progress : p.Progress host os r)
      (ask : p.form.ask? r.world.store r.frame.debug os = some a) : p.Asks host a r.world
  | leaving {o : Outcome} {r : Run σ} (settled : p.Settles host o r) :
    p.Asks host (.test p.run.frame.debug) (r.noted p.value o)

/-- Whatever the host is asked for in both evaluations it answers in the same way. -/
def Repeats (host : Host σ) (final : Store) (root root' : Position σ) : Prop :=
  ∀ {c c' : Position σ} {a w w'}, root.Reaches host c → root'.Reaches host c' →
    c.Asks host a w → c'.Asks host a w' → a.Recurs host final w w'

/-- The second visit is the first again: to the same node in the same state of the evaluation. It
begins after the first evaluation has ended in the store `base`, and the second evaluation ends in
the store `final`. -/
structure Again (host : Host σ) (base final : Store) (root root' p p' : Position σ) : Prop where
  first : p.IsSound
  second : p'.IsSound
  reached : root.Reaches host p
  reached' : root'.Reaches host p'
  budget : p'.budget = p.budget
  node : p'.node = p.node
  frame : p'.run.frame = p.run.frame
  firm : p.run.world.store.IsFirmTree p.node
  kept : base.Keeps p'.run.world.store
  early : (p.ending host).2.world.store.Ages base
  late : (p'.ending host).2.world.store.Ages final

/-- Both evaluations come to ends that are related, or they are broken off in the same way. Of what
the first evaluation left nothing has changed until then. -/
inductive EndsAgain (base final : Store) {α : Type} (R : Store → Store → α → α → Prop) :
    Except FaultRef α × Run σ → Except FaultRef α × Run σ → Prop
  | ok {a b : α} {r r' : Run σ} (kept : base.Keeps r'.world.store)
      (related : R r.world.store r'.world.store a b) : EndsAgain base final R (.ok a, r) (.ok b, r')
  | error {c d : FaultRef} {r r' : Run σ} (alike : final.Resembles 0 (.fault c) (.fault d)) :
      EndsAgain base final R (.error c, r) (.error d, r')

section EndsAgain

variable {α : Type} {R : Store → Store → α → α → Prop} {q : Except FaultRef α × Run σ}

theorem EndsAgain.of_ok {a : α} (h : EndsAgain base final R (.ok a, r) q) :
    ∃ b r', q = (.ok b, r') ∧ base.Keeps r'.world.store ∧
      R r.world.store r'.world.store a b := by
  cases h with
  | ok kept related => exact ⟨_, _, rfl, kept, related⟩

theorem EndsAgain.of_error {c : FaultRef} (h : EndsAgain base final R (.error c, r) q) :
    ∃ d r', q = (.error d, r') ∧ final.Resembles 0 (.fault c) (.fault d) := by
  cases h with
  | error alike => exact ⟨_, _, rfl, alike⟩

end EndsAgain

/-- An evaluation comes to where the rule of a node has ended. -/
theorem Settles.leads (h : p.Settles host o r) : p.run.Leads host r := by
  obtain ⟨os, r₀, progress, decided⟩ := h
  exact progress.leads.trans (Run.Change.leads (Form.changes_of_end decided))

/-- The leaving of a node ends in the state in which the visit ends. -/
theorem leaving_snd (o : Outcome) (r : Run σ) :
    (p.leaving host (.ok o, r)).2 = ((leaveNode host p.value p.kind o).runOn r).2 := by
  rw [leaving, Work.runOn_bind]
  rcases (leaveNode host p.value p.kind o).runOn r with ⟨e | u, r'⟩ <;> rfl

namespace Again

variable (again : Again host base final root root' p p') (hk : host.Keeps)
include again

theorem value_eq : p'.value = p.value :=
  congrArg Value.node again.node

include hk

theorem during (leads : r.Leads host (p.ending host).2) (leads' : r'.Leads host (p'.ending host).2)
    (kept : base.Keeps r'.world.store) : During base final r.world.store r'.world.store :=
  ⟨(leads.ages hk).trans again.early, kept, (leads'.ages hk).trans again.late⟩

theorem form_eq : p'.form = p.form := by
  have now := again.during hk (leads_end host p) (leads_end host p') again.kept
  have le := le_trans now.early.le now.kept.le
  rw [form, form, again.node, Store.form_eq_of_le le again.first.tree.whole.made]

/-- Inside the node both evaluations are in the same state. -/
theorem frame_eq (progress : p.Progress host os r) (progress' : p'.Progress host os' r') :
    r'.frame = r.frame := by
  have push := (progress.push_eq again.first hk.keepsTrees).1
  have push' := (progress'.push_eq again.second hk.keepsTrees).1
  rw [again.frame, again.value_eq, push] at push'
  exact (Except.ok.inj push').symm

variable (repeats : Repeats host final root root')
include repeats

/-- Both nodes are entered, or both visits are broken off in the same way. -/
theorem enters :
    (∃ c d r r', (enterNode host p.value).runOn p.run = (.error c, r) ∧
      (enterNode host p'.value).runOn p'.run = (.error d, r') ∧
      final.Resembles 0 (.fault c) (.fault d)) ∨
    ∃ r r', (enterNode host p.value).runOn p.run = (.ok p.kind, r) ∧
      (enterNode host p'.value).runOn p'.run = (.ok p'.kind, r') ∧
      base.Keeps r'.world.store := by
  have frame := again.frame
  have value := again.value_eq
  rcases push : p.run.frame.push p.value with refusal | f
  · have push' : p'.run.frame.push p'.value = .error refusal := by rw [frame, value, push]
    have refused := enterNode_of_refused host push
    have refused' := enterNode_of_refused host push'
    have early := again.early
    have late := again.late
    rw [ending_of_enter_error again.first refused] at early
    rw [ending_of_enter_error again.second refused'] at late
    have kept' := again.kept.trans
      (Run.keeps_of_quiet ((quiet_enterNode _).of_run refused') hk)
    exact .inl ⟨_, _, _, _, refused, refused',
      (resembles_report _ _ _ _ _ (by decide) ⟨early, kept', late⟩).mono (Nat.zero_le _)⟩
  · have push' : p'.run.frame.push p'.value = .ok f := by rw [frame, value, push]
    have settings := (Frame.settings_of_push push).2.1
    have asked' : p'.Asks host (.test p.run.frame.debug) p'.run.world := frame ▸ .entering push'
    have recurs : Recurs final ((truthTest host p.run.frame.debug).runOn p.run.world)
      ((truthTest host p.run.frame.debug).runOn p'.run.world) :=
        repeats again.reached again.reached' (.entering push) asked'
    generalize tested : (truthTest host p.run.frame.debug).runOn p.run.world = q at recurs
    generalize tested' : (truthTest host p.run.frame.debug).runOn p'.run.world = q' at recurs
    rw [← settings] at tested tested'
    cases recurs with
    | ok =>
      obtain ⟨r, enter⟩ := enterNode_of_test push tested
      obtain ⟨r', enter'⟩ := enterNode_of_test push' tested'
      have keeps' := Run.keeps_of_quiet ((quiet_enterNode _).of_run enter') hk
      exact .inr ⟨r, r', enter, enter', again.kept.trans keeps'⟩
    | error there there' text alike =>
      exact .inl ⟨_, _, ⟨f, _⟩, ⟨f, _⟩, enterNode_eq_error_iff.2 (.inr ⟨f, push, tested, rfl⟩),
        enterNode_eq_error_iff.2 (.inr ⟨f, push', tested', rfl⟩), alike.mono (Nat.zero_le _)⟩

/-- Both nodes are left, or both visits are broken off in the same way. -/
theorem leaves (settled : p.Settles host o r) (settled' : p'.Settles host o' r')
    (kept : base.Keeps r'.world.store)
    (echoes : o.Echoes base final r.world.store r'.world.store o') :
    EndsAgain base final (Outcome.Echoes base final) (p.leaving host (.ok o, r))
      (p'.leaving host (.ok o', r')) := by
  have trees := hk.keepsTrees
  have value := again.value_eq
  have push := settled.push_eq again.first trees
  have push' := settled'.push_eq again.second trees
  have keeps := Run.keeps_of_quiet (quiet_leaveNode p.value p.kind o r) hk
  have keeps' := Run.keeps_of_quiet (quiet_leaveNode p.value p'.kind o' r') hk
  have early := again.early
  rw [ending_of_ruleEnds again.first trees (.settles settled), leaving_snd] at early
  have placed := (settled.leads.ages hk).isPlaced (again.firm _ .refl).placed
  obtain ⟨kept₁, echoes₁⟩ := echoes.attachPlace placed (keeps.ages.trans early) kept
  have asked' : p'.Asks host (.test p.run.frame.debug) (r'.noted p.value o') :=
    again.frame ▸ value ▸ .leaving settled'
  have recurs : Recurs final ((truthTest host p.run.frame.debug).runOn (r.noted p.value o))
    ((truthTest host p.run.frame.debug).runOn (r'.noted p.value o')) :=
      repeats again.reached again.reached' (.leaving settled) asked'
  rw [value, again.frame] at push'
  generalize tested : (truthTest host p.run.frame.debug).runOn (r.noted p.value o) = q at recurs
  generalize tested' : (truthTest host p.run.frame.debug).runOn (r'.noted p.value o') = q'
    at recurs
  rw [← (Frame.settings_of_push push).2.1] at tested
  rw [← (Frame.settings_of_push push').2.1] at tested'
  rw [leaving, leaving, value]
  cases recurs with
  | ok =>
    obtain ⟨t, left⟩ := leaveNode_of_test p.kind push tested
    obtain ⟨t', left'⟩ := leaveNode_of_test p'.kind push' tested'
    rw [Work.runOn_bind_ok left, Work.runOn_bind_ok left']
    rw [left] at keeps
    rw [left'] at keeps'
    exact .ok (kept₁.trans keeps') (echoes₁.mono keeps keeps')
  | @error c d w w' there there' text alike =>
    have broken : (leaveNode host p.value p.kind o).runOn r = (.error c, ⟨r.frame, w⟩) :=
      (leaveNode_eq_error_iff push).2 ⟨tested, rfl⟩
    have broken' : (leaveNode host p.value p'.kind o').runOn r' = (.error d, ⟨r'.frame, w'⟩) :=
      (leaveNode_eq_error_iff push').2 ⟨tested', rfl⟩
    rw [Work.runOn_bind_error broken, Work.runOn_bind_error broken']
    exact .error (alike.mono (Nat.zero_le _))

/-- The rules of both visits, come equally far, make moves of which the second is the first
again. -/
theorem echoes_next (progress : p.Progress host os r) (progress' : p'.Progress host os' r')
    (kept : base.Keeps r'.world.store)
    (all : OutcomesEcho base final r.world.store r'.world.store os os') :
    EndsAgain base final (Move.Echoes base final) ((p.form.next host os).runOn r)
      ((p'.form.next host os').runOn r') := by
  have trees := hk.keepsTrees
  have whole := again.first.tree.whole
  have ages := progress.leads.ages hk
  have now := again.during hk (progress.leads_ending again.first trees)
    (progress'.leads_ending again.second trees) kept
  have kept' := kept.trans (Run.keeps_of_changes (p'.form.makes_next os' r') hk)
  have ends := again.during hk (progress.decided_leads again.first trees rfl)
    (progress'.decided_leads again.second trees rfl) kept'
  rw [again.form_eq hk] at ends kept' ⊢
  have moves : (p.form.next host os).Echoes base final (p.form.next host os') r r' := by
    refine Form.echoes_next hk now (again.frame_eq hk progress progress') (whole.fit.mono ages.le)
      (fun x holds => ?_) all fun a ask ask' => ?_
    · have firm := (again.firm _ .refl).mono ages whole
      exact firm.held ((Store.form_eq_of_le ages.le whole.made).trans holds)
    · have asked' : p'.form.ask? r'.world.store r'.frame.debug os' = some a := by
        rw [again.form_eq hk]
        exact ask'
      exact repeats again.reached again.reached' (.deciding progress ask)
        (.deciding progress' asked')
  have ended := moves ends
  generalize (p.form.next host os).runOn r = q at ended
  generalize (p.form.next host os').runOn r' = q' at ended kept'
  obtain ⟨result, r₁⟩ := q
  obtain ⟨result', r₁'⟩ := q'
  cases ended with
  | ok related => exact .ok kept' related
  | error alike => exact .error alike

omit repeats in
/-- An operand that both rules visit is visited again. -/
theorem child (progress : p.Progress host os r) (progress' : p'.Progress host os' r')
    (kept : base.Keeps r'.world.store) {i : Nat} {v : Value} {r₁ r₁' : Run σ}
    (decided : (p.form.next host os).runOn r = (.ok (.visit i v), r₁))
    (decided' : (p'.form.next host os').runOn r' = (.ok (.visit i v), r₁')) :
    ∃ c c', v = c.value ∧ v = c'.value ∧ p.Child host i c ∧ p'.Child host i c' ∧ c.run = r₁ ∧
      c'.run = r₁' ∧ Again host base final root root' c c' := by
  have trees := hk.keepsTrees
  have below := progress.visit_leads again.first trees decided
  have below' := progress'.visit_leads again.second trees decided'
  obtain ⟨c, rfl, child, sound, rfl, cending⟩ := progress.child again.first trees decided
  obtain ⟨c', same, child', sound', rfl, cending'⟩ :=
    progress'.child again.second trees decided'
  have changes := (p.form.makes_next os).of_run decided
  have changes' := (p'.form.makes_next os').of_run decided'
  have leads : p.run.Leads host c.run := progress.leads.trans (Run.Change.leads changes)
  have operand : p.run.world.store.Operand p.node c.node := Form.next_visit_mem decided
  refine ⟨c, c', rfl, same, child, child', rfl, rfl, sound, sound',
    again.reached.tail ⟨i, child⟩, again.reached'.tail ⟨i, child'⟩, ?_, ?_, ?_,
    (again.firm.operand operand).mono (leads.ages hk) (again.first.tree.operand operand),
    kept.trans (Run.keeps_of_changes changes' hk), ?_, ?_⟩
  · have first := child.budget
    have second := child'.budget
    have budget := again.budget
    omega
  · exact (Value.node.inj same).symm
  · rw [Run.Change.frame_eq changes, Run.Change.frame_eq changes',
      again.frame_eq hk progress progress']
  · rw [← cending] at below
    exact (below.ages hk).trans again.early
  · rw [← cending'] at below'
    exact (below'.ages hk).trans again.late

variable (below : ∀ {c c' : Position σ}, c.budget < p.budget →
  Again host base final root root' c c' →
    EndsAgain base final (Outcome.Echoes base final) (c.ending host) (c'.ending host))
include below

/-- An operand that the one rule visits is visited by the other, and both visits end in the same way
if those below do. -/
theorem visit (progress : p.Progress host os r) (progress' : p'.Progress host os' r')
    (kept : base.Keeps r'.world.store)
    (all : OutcomesEcho base final r.world.store r'.world.store os os') {i : Nat} {v : Value}
    {r₁ : Run σ} (decided : (p.form.next host os).runOn r = (.ok (.visit i v), r₁)) :
    ∃ r₁', (p'.form.next host os').runOn r' = (.ok (.visit i v), r₁') ∧
      EndsAgain base final (Outcome.Echoes base final) ((evalNode host (p.budget - 1) v).runOn r₁)
        ((evalNode host (p'.budget - 1) v).runOn r₁') := by
  have moves := again.echoes_next hk repeats progress progress' kept all
  rw [decided] at moves
  obtain ⟨_, r₁', decided', -, move⟩ := moves.of_ok
  cases move
  obtain ⟨c, c', rfl, same, child, child', rfl, rfl, visits⟩ :=
    again.child hk progress progress' kept decided decided'
  have less : c.budget < p.budget := by
    have := child.budget
    omega
  have ends := below less visits
  rw [← child.ending_eq, ← child'.ending_eq, ← same] at ends
  exact ⟨_, decided', ends⟩

/-- However far the first visit comes, the second comes as far, and in the same way. -/
theorem exists_progress (progress : p.Progress host os r) :
    ∃ os' r', p'.Progress host os' r' ∧ base.Keeps r'.world.store ∧
      OutcomesEcho base final r.world.store r'.world.store os os' := by
  induction progress with
  | @entered r budget enter =>
    obtain ⟨c, d, r₁, r₁', entered, -⟩ | ⟨r₁, r', entered, entered', kept⟩ :=
      again.enters hk repeats
    · rw [enter] at entered
      cases entered
    · refine ⟨[], r', .entered (again.budget ▸ budget) entered', kept, .nil, fun none => ?_⟩
      cases none
  | @visited os r i v r₁ o r₂ before decided visit ih =>
    obtain ⟨os', r', progress', kept, all⟩ := ih
    obtain ⟨r₁', decided', ends⟩ :=
      again.visit hk repeats below before progress' kept all decided
    rw [visit] at ends
    obtain ⟨o', r₂', visit', kept₂, echoes⟩ := ends.of_ok
    refine ⟨os' ++ [o'], r₂', .visited progress' decided' visit', kept₂,
      List.rel_append all.agree (.cons echoes.agrees .nil), fun first second => ?_⟩
    rw [List.getLast?_concat] at first second
    cases first
    cases second
    exact echoes

/-- The rule of the second visit ends with the result of the first again. -/
theorem exists_settles (settled : p.Settles host o r) :
    ∃ o' r', p'.Settles host o' r' ∧ base.Keeps r'.world.store ∧
      o.Echoes base final r.world.store r'.world.store o' := by
  obtain ⟨os, r₀, progress, decided⟩ := settled
  obtain ⟨os', r₀', progress', kept, all⟩ := again.exists_progress hk repeats below progress
  have moves := again.echoes_next hk repeats progress progress' kept all
  obtain decided | decided := decided
  · rw [decided] at moves
    obtain ⟨_, r', decided', kept', move⟩ := moves.of_ok
    cases move with
    | keep echoes => exact ⟨_, r', ⟨os', r₀', progress', .inl decided'⟩, kept', echoes⟩
  · rw [decided] at moves
    obtain ⟨_, r', decided', kept', move⟩ := moves.of_ok
    cases move with
    | finish echoes => exact ⟨_, r', ⟨os', r₀', progress', .inr decided'⟩, kept', echoes⟩

omit again below in
/-- A visit that is made again ends in the same way. -/
theorem endsAgain (again : Again host base final root root' p p') :
    EndsAgain base final (Outcome.Echoes base final) (p.ending host) (p'.ending host) := by
  induction hb : p.budget using Nat.strongRecOn generalizing p p' with
  | ind b ih =>
    have trees := hk.keepsTrees
    have below : ∀ {c c' : Position σ}, c.budget < p.budget →
        Again host base final root root' c c' →
        EndsAgain base final (Outcome.Echoes base final) (c.ending host) (c'.ending host) :=
      fun less again => ih _ (hb ▸ less) again rfl
    obtain ⟨e, r, enter, ending⟩ | ⟨q, ending, ends⟩ := ending_cases again.first trees
    · obtain ⟨c, d, r₁, r', broken, broken', alike⟩ | ⟨r₁, r', entered, -⟩ :=
        again.enters hk repeats
      · rw [ending_of_enter_error again.first broken, ending_of_enter_error again.second broken']
        exact .error alike
      · rw [enter] at entered
        cases entered
    · rw [ending]
      cases ends with
      | settles settled =>
        obtain ⟨o', r', settled', kept, echoes⟩ :=
          again.exists_settles hk repeats below settled
        rw [ending_of_ruleEnds again.second trees (.settles settled')]
        exact again.leaves hk repeats settled settled' kept echoes
      | breaks progress decided =>
        obtain ⟨os', r', progress', kept, all⟩ :=
          again.exists_progress hk repeats below progress
        have moves := again.echoes_next hk repeats progress progress' kept all
        rw [decided] at moves
        obtain ⟨d, r₁', decided', alike⟩ := moves.of_error
        rw [ending_of_ruleEnds again.second trees (.breaks progress' decided')]
        exact .error alike
      | breaksBelow progress decided visit =>
        obtain ⟨os', r', progress', kept, all⟩ :=
          again.exists_progress hk repeats below progress
        obtain ⟨r₁', decided', ends⟩ :=
          again.visit hk repeats below progress progress' kept all decided
        rw [visit] at ends
        obtain ⟨d, r₂', visit', alike⟩ := ends.of_error
        rw [ending_of_ruleEnds again.second trees (.breaksBelow progress' decided' visit')]
        exact .error alike

end Again

end Position

/-! ## The evaluation of a tree, made again -/

/-- The place that was attached to what is raised. -/
def Store.placeAt? (s : Store) : Value → Option Value
  | .fault x => some (s.fault x).place
  | _ => none

/-- Two evaluations end with equal outcomes: with the same value, or with faults that have the same
place; or both are broken off with equivalent faults. -/
inductive EqualEnds (s : Store) : Except FaultRef Outcome → Except FaultRef Outcome → Prop
  | success {o o' : Outcome} {v : Value} (first : o.result = .success v)
      (second : o'.result = .success v)
      (equal : s.areEqual (.outcome o.self) (.outcome o'.self) = .ok true) :
      EqualEnds s (.ok o) (.ok o')
  | raised {o o' : Outcome} {e e' : Value} (first : o.result = .raised e)
      (second : o'.result = .raised e')
      (equal : s.areEqual (.outcome o.self) (.outcome o'.self) = .ok true)
      (place : s.placeAt? e = s.placeAt? e') : EqualEnds s (.ok o) (.ok o')
  | broken {c d : FaultRef} (equivalent : s.areEquivalent (.fault c) (.fault d) = .ok true) :
      EqualEnds s (.error c) (.error d)

section Evaluations

variable {base final s s' : Store} {o o' : Outcome}

/-- An outcome with the result of the first again is equal to it in the end. -/
theorem Outcome.Echoes.areEqual (h : o.Echoes base final s s' o') (later : s.Retains final)
    (later' : s'.Retains final) :
    final.areEqual (.outcome o.self) (.outcome o'.self) = .ok true := by
  have first := (h.kept.mono later).2
  have second := (h.kept'.mono later').2
  have result := h.result
  rw [Store.areEqual, final.interpreter.valueDepth_eq]
  unfold Store.equal
  simp only [first, second]
  generalize o.result = result₁ at result
  generalize o'.result = result₂ at result
  cases result with
  | success => exact sameOr_self _ _
  | raised echoes =>
    cases echoes with
    | same there => exact final.equivalent_self _ _
    | renewed renews alike =>
      obtain ⟨depth, enough, equivalent⟩ := alike
      exact final.equivalent_mono (Nat.le_of_add_le_add_right enough) equivalent

/-- What is raised again has the same place in the end. -/
theorem Value.Echoes.placeAt?_eq {e e' : Value} (h : e.Echoes base final base final e')
    (kept : base.Keeps final) : final.placeAt? e = final.placeAt? e' := by
  cases h with
  | same there => rfl
  | @renewed x y renews alike =>
    show some (final.fault x).place = some (final.fault y).place
    rw [kept.fault renews.made]
    exact congrArg some (renews.place fun _ _ _ => rfl)

end Evaluations

variable {q : Request} {root : NodeRef} {w w' u u' : World σ}
  {result result' : Except FaultRef Outcome}

/-- An evaluation of a tree is made again later, after the first one has ended, in the same
environment and with the same options. -/
theorem runOn_evaluate_again (hk : host.Keeps) (tree : w.store.IsTree root)
    (firm : w.store.IsFirmTree root)
    (first : (evaluate host q (.node root)).runOn w = (result, u)) (kept : u.store.Keeps w'.store)
    (second : (evaluate host q (.node root)).runOn w' = (result', u'))
    (repeats : Position.Repeats host u'.store (.start q root w) (.start q root w')) :
    EqualEnds u'.store result result' := by
  let p := Position.start q root w
  let p' := Position.start q root w'
  rw [Position.runOn_evaluate] at first second
  have le : w.store ≤ w'.store := by
    refine le_trans ((Position.leads_end host p).le hk.keepsTrees) ?_
    rw [(Prod.mk.inj first).2]
    exact kept.le
  have again : Position.Again host u.store u'.store p p' p p' :=
    { first := Position.isSound_start q tree
      second := Position.isSound_start q (tree.mono le)
      reached := .refl
      reached' := .refl
      budget := rfl
      node := rfl
      frame := rfl
      firm := firm
      kept := kept
      early := (Prod.mk.inj first).2 ▸ (Store.Keeps.refl _).ages
      late := (Prod.mk.inj second).2 ▸ (Store.Keeps.refl _).ages }
  have ends := again.endsAgain hk repeats
  generalize p.ending host = q at first ends
  generalize p'.ending host = q' at second ends
  obtain ⟨_, r⟩ := q
  obtain ⟨_, r'⟩ := q'
  cases first
  cases second
  cases ends with
  | error alike => exact .broken alike.areEquivalent
  | @ok o o' _ _ kept' echoes =>
    have equal := echoes.areEqual kept'.toRetains (.refl _)
    have result := echoes.result
    generalize first : o.result = result₁ at result
    generalize second : o'.result = result₂ at result
    cases result with
    | success => exact .success first second equal
    | raised raises => exact .raised first second equal (raises.placeAt?_eq kept')

/-! ## A call that fails again -/

/-- A host whose routines raise a new fault each time. -/
def falteringHost : Host Unit :=
  ⟨fun _ _ w => (.error ⟨w.store.faults.size⟩,
      { w with store := (w.store.addFault (Attempt.faultAt w.store .badValue .null "lost")).2 }),
    fun _ w => (.ok true, w)⟩

theorem keeps_falteringHost : falteringHost.Keeps :=
  ⟨fun _ _ _ => (Store.Change.fault _).keeps, fun _ _ => .refl _⟩

/-- A store with a call of a routine, which has a place. -/
def falteringStore : Store :=
  { placeStore with
    nodes := #[⟨.call (.node ⟨1⟩) (.tuple [] Store.noStamp), .position ⟨0⟩, []⟩,
      ⟨.literal (.routine ⟨0⟩), .null, []⟩] }

/-- The world with this store. -/
def falteringWorld : World Unit :=
  ⟨falteringStore, .empty, #[], ()⟩

/-- The world that an evaluation of the call leaves. -/
def falteredWorld : World Unit :=
  ((evaluate falteringHost .standard (.node ⟨0⟩)).runOn falteringWorld).2

theorem isTree_falteringStore : falteringStore.IsTree ⟨0⟩ := by
  have callee : falteringStore.IsTree ⟨1⟩ := .of_trees [] (by decide) trivial rfl nofun
  exact .of_trees [⟨1⟩] (by decide) ⟨[], _, rfl⟩ rfl (List.forall_mem_singleton.2 callee)

theorem isFirmTree_falteringStore : falteringStore.IsFirmTree ⟨0⟩ := by
  have firm : ∀ n : NodeRef, n.index < 2 → falteringStore.IsFirm n := by
    rintro ⟨_ | _ | n⟩ made
    · exact ⟨⟨made, trivial⟩, fun holds => by cases holds⟩
    · exact ⟨⟨made, trivial⟩, fun holds => by cases holds⟩
    · exact absurd made (by simp)
  exact fun m reached => firm m (isTree_falteringStore m reached).made

section Faltering

variable {w v : World Unit} {c : Position Unit} {a : Ask} {o : Outcome} {r : Run Unit}

/-- An evaluation of the call visits the call and the literal below it. -/
theorem reaches_of_faltering (le : falteringStore ≤ w.store)
    (reached : (Position.start .standard ⟨0⟩ w).Reaches falteringHost c) :
    c = .start .standard ⟨0⟩ w ∨
      c.form = .literal (.routine ⟨0⟩) ∧ c.run.frame.debug = .bool false := by
  have hk := keeps_falteringHost.keepsTrees
  have sound : (Position.start .standard ⟨0⟩ w).IsSound :=
    Position.isSound_start _ (isTree_falteringStore.mono le)
  have call : w.store.form ⟨0⟩ = falteringStore.form ⟨0⟩ :=
    Store.form_eq_of_le le (by decide)
  induction reached with
  | refl => exact .inl rfl
  | @tail b c above step ih =>
    obtain ⟨slot, child⟩ := step
    obtain ⟨os, r, progress, decided⟩ := child.decided
    have operand : c.value ∈ b.form.operands := Form.next_visit_mem decided
    obtain rfl | ⟨literal, -⟩ := ih
    · rw [Position.form, Position.start, call] at operand
      have callee : c.value = .node ⟨1⟩ := List.mem_singleton.1 operand
      have later := Position.Reaches.leads (above.tail ⟨slot, child⟩) |>.le hk
      refine .inr ⟨?_, child.debug_eq sound hk⟩
      rw [Position.form, Value.node.inj callee]
      exact Store.form_eq_of_le (le_trans le later) (by decide)
    · rw [literal] at operand
      cases operand

/-- The host is asked for the truth of the debug switch, and to call the routine. -/
theorem asks_of_faltering (le : falteringStore ≤ w.store)
    (progress : (Position.start .standard ⟨0⟩ w).Progress falteringHost [o] r)
    (routine : o.value = .routine ⟨0⟩)
    (reached : (Position.start .standard ⟨0⟩ w).Reaches falteringHost c)
    (asks : c.Asks falteringHost a v) :
    a = .test (.bool false) ∨ a = .call (.routine ⟨0⟩) [] ∧ v = r.world := by
  obtain rfl | ⟨literal, debug⟩ := reaches_of_faltering le reached
  · cases asks with
    | entering => exact .inl rfl
    | leaving => exact .inl rfl
    | @deciding os r' _ progress' ask =>
      have call : w.store.form ⟨0⟩ = falteringStore.form ⟨0⟩ :=
        Store.form_eq_of_le le (by decide)
      have known := progress'.known.length_le
      rw [Position.form, Position.start, call] at ask known
      cases os with
      | nil => cases ask
      | cons first more =>
        obtain ⟨same, rfl⟩ := progress'.unique progress
          (Nat.le_antisymm known (Nat.le_add_left _ _))
        cases same
        have asked : (if 0 ≤ 0 ∧ o.isRaised = false then some (Ask.call o.value []) else none) =
            some a := ask
        split at asked
        · cases asked
          exact .inr ⟨by rw [routine], rfl⟩
        · cases asked
  · cases asks with
    | entering => exact .inl (debug ▸ rfl)
    | leaving => exact .inl (debug ▸ rfl)
    | deciding progress ask =>
      rw [literal] at ask
      cases ask

end Faltering

/-- The state in which the routine is called in an evaluation. -/
def falteringCall (w : World Unit) : Run Unit :=
  let entered := ((enterNode falteringHost (.node ⟨0⟩)).runOn ⟨Request.standard.frame, w⟩).2
  ((evalNode falteringHost 127 (.node ⟨1⟩)).runOn entered).2

/-- The callee of the call is the routine. -/
theorem progress_falteringCall {w : World Unit} (le : falteringStore ≤ w.store) :
    (Position.start .standard ⟨0⟩ w).Progress falteringHost
      [⟨⟨w.store.outcomes.size⟩, .success (.routine ⟨0⟩)⟩] (falteringCall w) := by
  let entered := ((enterNode falteringHost (.node ⟨0⟩)).runOn ⟨Request.standard.frame, w⟩).2
  let opened := ((enterNode falteringHost (.node ⟨1⟩)).runOn entered).2
  have call : w.store.form ⟨0⟩ = falteringStore.form ⟨0⟩ := Store.form_eq_of_le le (by decide)
  have literal : w.store.form ⟨1⟩ = falteringStore.form ⟨1⟩ := Store.form_eq_of_le le (by decide)
  have decided : ((w.store.form ⟨0⟩).next falteringHost []).runOn entered =
      (.ok (.visit 0 (.node ⟨1⟩)), entered) := by
    rw [call]
    rfl
  have enter : (enterNode falteringHost (.node ⟨1⟩)).runOn entered =
      (.ok (w.store.typeName (.node ⟨1⟩)), opened) := rfl
  have evaluated : (evalOpen falteringHost (evalNode falteringHost 126) (.node ⟨1⟩)).runOn opened =
      (Eval.ofAct (Act.success (.routine ⟨0⟩)) : Eval Unit Outcome).runOn opened := by
    show (evalForm falteringHost (evalNode falteringHost 126) (w.store.form ⟨1⟩)).runOn opened = _
    rw [literal]
    rfl
  have visit : ((evalNode falteringHost 127 (.node ⟨1⟩)).runOn entered).1 =
      .ok ⟨⟨w.store.outcomes.size⟩, .success (.routine ⟨0⟩)⟩ := by
    rw [evalNode, Work.runOn_bind_ok enter, Work.runOn_bind, evaluated]
    rfl
  have budget : Request.standard.frame.maxDepth ≠ 0 := by decide
  exact .visited (.entered budget rfl) decided (Prod.ext visit rfl)

/-- The routine makes the next fault. -/
theorem runOn_invoke_faltering (w : World Unit) :
    ∃ w₁, (invoke falteringHost (.routine ⟨0⟩) []).runOn w = falteringHost.run ⟨0⟩ [] w₁ ∧
      w₁.store.faults = w.store.faults := by
  refine ⟨_, rfl, ?_⟩
  dsimp only
  split <;> rfl

/-- The world that the second evaluation leaves. -/
def falteredAgain : World Unit :=
  ((evaluate falteringHost .standard (.node ⟨0⟩)).runOn falteredWorld).2

theorem repeats_falteringHost : Position.Repeats falteringHost falteredAgain.store
    (.start .standard ⟨0⟩ falteringWorld) (.start .standard ⟨0⟩ falteredWorld) := by
  have le : falteringStore ≤ falteredWorld.store :=
    Position.le_evaluate keeps_falteringHost.keepsTrees .standard ⟨0⟩ falteringWorld
  intro c c' a v v' reached reached' asks asks'
  obtain rfl | ⟨rfl, rfl⟩ :=
    asks_of_faltering (w := falteringWorld) (le_refl _) (progress_falteringCall (le_refl _)) rfl
      reached asks
  · exact .ok
  · obtain none | ⟨-, rfl⟩ :=
      asks_of_faltering (w := falteredWorld) le (progress_falteringCall le) rfl reached' asks'
    · cases none
    · obtain ⟨w, runs, same⟩ := runOn_invoke_faltering (falteringCall falteringWorld).world
      obtain ⟨w', runs', same'⟩ := runOn_invoke_faltering (falteringCall falteredWorld).world
      have text (s : Store) :
          (s.addFault (Attempt.faultAt s .badValue .null "lost")).2.plainText
            (.fault ⟨s.faults.size⟩) = .ok "lost" :=
        Store.plainText_of_message (by decide) (s.fault_addFault_self _)
      have alike : falteredAgain.store.Resembles 3 (.fault ⟨w.store.faults.size⟩)
          (.fault ⟨w'.store.faults.size⟩) := by
        rw [same, same']
        exact ⟨3, by decide, by decide +kernel⟩
      show Recurs _
        ((invoke falteringHost (.routine ⟨0⟩) []).runOn (falteringCall falteringWorld).world)
        ((invoke falteringHost (.routine ⟨0⟩) []).runOn (falteringCall falteredWorld).world)
      rw [runs, runs']
      exact .error (Store.has_addFault _ _) (Store.has_addFault _ _)
        ((text w'.store).trans (text w.store).symm) alike

/-- Each evaluation raises a failed call of its own, whose cause is a fault of its own as well, and
the outcomes are equal. -/
theorem equalEnds_of_faltering :
    falteringHost.Keeps ∧ falteringStore.IsTree ⟨0⟩ ∧ falteringStore.IsFirmTree ⟨0⟩ ∧
    Position.Repeats falteringHost falteredAgain.store (.start .standard ⟨0⟩ falteringWorld)
      (.start .standard ⟨0⟩ falteredWorld) ∧
    falteredWorld.store.faults.size = 2 ∧ falteredAgain.store.faults.size = 4 ∧
    (((evaluate falteringHost .standard (.node ⟨0⟩)).runOn falteringWorld).1.toOption.map
      Outcome.isRaised) = some true ∧
    EqualEnds falteredAgain.store
      ((evaluate falteringHost .standard (.node ⟨0⟩)).runOn falteringWorld).1
      ((evaluate falteringHost .standard (.node ⟨0⟩)).runOn falteredWorld).1 := by
  have two : falteredWorld.store.faults.size = 2 := by decide +kernel
  have four : falteredAgain.store.faults.size = 4 := by decide +kernel
  have raised : ((evaluate falteringHost .standard (.node ⟨0⟩)).runOn falteringWorld).1.toOption.map
      Outcome.isRaised = some true := by decide +kernel
  have equal := runOn_evaluate_again (w := falteringWorld) (u := falteredWorld) keeps_falteringHost
    isTree_falteringStore isFirmTree_falteringStore (Prod.mk.eta).symm (.refl _) (Prod.mk.eta).symm
    repeats_falteringHost
  exact ⟨keeps_falteringHost, isTree_falteringStore, isFirmTree_falteringStore,
    repeats_falteringHost, two, four, raised, equal⟩

/-! ## A call that changes what is there -/

/-- A host whose routines return null each time, but the second time a place is attached to the
first fault. -/
def movingHost : Host Bool :=
  ⟨fun _ _ w => (.ok .null,
      ⟨if w.host then w.store.locate ⟨0⟩ (.position ⟨1⟩) else w.store, w.trace, w.log, true⟩),
    fun _ w => (.ok true, w)⟩

/-- A world in which a node that has a place raises the first fault if the routine returns null. -/
def movingWorld : World Bool :=
  ⟨{ Store.empty with
      positions := #[[(lineName, .int 5 Store.noStamp)], [(lineName, .int 9 Store.noStamp)]]
      faults := #[⟨.recoverable, .tuple [.str "lost" Store.noStamp] Store.noStamp, .null,
        .null, []⟩]
      nodes := #[⟨.literal (.routine ⟨0⟩), .null, []⟩,
        ⟨.call (.node ⟨0⟩) (.tuple [] Store.noStamp), .null, []⟩,
        ⟨.raise (.fault ⟨0⟩), .position ⟨0⟩, []⟩,
        ⟨.fallback .onNull (.node ⟨1⟩) (.node ⟨2⟩), .null, []⟩] }, .empty, #[], false⟩

theorem isTree_movingWorld : movingWorld.store.IsTree ⟨3⟩ := by
  have literal : movingWorld.store.IsTree ⟨0⟩ := .of_trees [] (by decide) trivial rfl nofun
  have call : movingWorld.store.IsTree ⟨1⟩ :=
    .of_trees [⟨0⟩] (by decide) ⟨[], _, rfl⟩ rfl (List.forall_mem_singleton.2 literal)
  have raise : movingWorld.store.IsTree ⟨2⟩ :=
    .of_trees [] (by decide) ⟨⟨0⟩, rfl, by decide, rfl⟩ rfl nofun
  exact .of_trees [⟨1⟩, ⟨2⟩] (by decide) trivial rfl (by simp [call, raise])

/-- The line at which an evaluation has failed. -/
def Store.failedLine? (s : Store) : Except FaultRef Outcome → Option Int
  | .ok ⟨_, .raised e⟩ => (s.placeAt? e).bind s.line? |>.bind Value.int?
  | _ => none

/-- Where evaluations end with equal outcomes, they have failed at the same line. -/
theorem EqualEnds.failedLine?_eq {s : Store} {result result' : Except FaultRef Outcome}
    (h : EqualEnds s result result') : s.failedLine? result = s.failedLine? result' := by
  cases h with
  | @success o o' v first second equal =>
    obtain ⟨self, _⟩ := o
    obtain ⟨self', _⟩ := o'
    cases first
    cases second
    rfl
  | @raised o o' e e' first second equal place =>
    obtain ⟨self, _⟩ := o
    obtain ⟨self', _⟩ := o'
    cases first
    cases second
    rw [Store.failedLine?, Store.failedLine?, place]
  | broken => rfl

/-- The routine returns the same each time it is called, and still the second evaluation fails at
another line than the first. -/
theorem not_equalEnds_of_moving :
    let first := (evaluate movingHost .standard (.node ⟨3⟩)).runOn movingWorld
    let second := (evaluate movingHost .standard (.node ⟨3⟩)).runOn first.2
    movingWorld.store.IsTree ⟨3⟩ ∧ (∀ r args w, (movingHost.run r args w).1 = .ok .null) ∧
    (∀ o w, (movingHost.truth o w).1 = .ok true) ∧
    second.2.store.failedLine? first.1 = some 5 ∧
    second.2.store.failedLine? second.1 = some 9 ∧
    ¬EqualEnds second.2.store first.1 second.1 := by
  intro first second
  have line : second.2.store.failedLine? first.1 = some 5 := by decide +kernel
  have line' : second.2.store.failedLine? second.1 = some 9 := by decide +kernel
  refine ⟨isTree_movingWorld, fun _ _ _ => rfl, fun _ _ => rfl, line, line', fun equal => ?_⟩
  have same := equal.failedLine?_eq
  rw [line, line'] at same
  cases same

end Fallback
