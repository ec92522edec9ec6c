import Mathlib
import Fallback.Proofs.Agreement
import Fallback.Proofs.Course
import Fallback.Proofs.Lowering
import Fallback.Proofs.Origin
import Fallback.Proofs.Provenance

/-!
Where a lowered tree fails.

A raised fault gets the place of the innermost node on the path to where it was raised that has
one. In a lowered tree that node is the very one that raised it, as long as the tokens and rules
that can raise have lines, and its place has the marks of the phrase that owns it. So a fault that
an evaluation ends with tells the line and the column of one phrase of the parse tree: the name that
was not bound, the call that failed, or the operator or choice whose truth test did.

That the host leaves nodes and positions alone is an assumption about it, `Host.KeepsPlaces`.
-/
namespace Fallback

open Relation (ReflTransGen)

variable {σ : Type} {host : Host σ}

/-! ## Positions last -/

/-- The host leaves alone what lasts, positions as well, and the interpreter. -/
structure Host.KeepsPlaces (host : Host σ) : Prop where
  run (r : RoutineRef) (args : List Value) (w : World σ) :
    w.store.KeepsPlaces (host.run r args w).2.store
  truth (o : ObjectRef) (w : World σ) : w.store.KeepsPlaces (host.truth o w).2.store

theorem Host.KeepsPlaces.keepsTrees (hp : host.KeepsPlaces) : host.KeepsTrees :=
  ⟨fun r args w => (hp.run r args w).le, fun o w => (hp.truth o w).le⟩

theorem Store.Change.keepsPlaces {s t : Store} (h : s.Change t) : s.KeepsPlaces t :=
  .of_eq h.le (by cases h <;> rfl) (by cases h <;> rfl)

theorem Store.keepsPlaces_attachPlace (s : Store) (v : Value) (o : Outcome) :
    s.KeepsPlaces (s.attachPlace v o) := by
  have kept : (s.attachPlace v o).positions = s.positions ∧
      (s.attachPlace v o).interpreter = s.interpreter := by
    unfold attachPlace
    split
    · dsimp only
      split <;> exact ⟨rfl, rfl⟩
    · exact ⟨rfl, rfl⟩
  exact .of_eq (s.le_attachPlace v o) kept.1 kept.2

/-- Places are kept while an evaluation goes on. -/
theorem Run.Leads.keepsPlaces {r r' : Run σ} (h : r.Leads host r') (hp : host.KeepsPlaces) :
    r.world.store.KeepsPlaces r'.world.store := by
  induction h with
  | refl => exact .refl _
  | tail _ step ih =>
    refine ih.trans ?_
    cases step with
    | place v o => exact Store.keepsPlaces_attachPlace _ v o
    | quiet h =>
      cases h with
      | change h =>
        cases h with
        | world h =>
          cases h with
          | store h => exact h.keepsPlaces
          | run r args => exact hp.run r args _
          | truth o => exact hp.truth o _
        | log record => exact .refl _
      | frame | enter | exit => exact .refl _

/-! ## What a node stands for on the way down -/

/-- The node was made for a phrase of the tree. -/
def Phrase.IsBehind (p : Phrase) (s : Store) (n : NodeRef) : Prop :=
  ∃ u ∈ p.parts, ∃ b, u.Owns b ∧ b.Shows s n

namespace Phrase.IsBehind

variable {p : Phrase} {s t : Store} {n : NodeRef}

theorem mono (h : p.IsBehind s n) (keeps : s.KeepsPlaces t) : p.IsBehind t n := by
  obtain ⟨u, hu, b, owns, shows⟩ := h
  exact ⟨u, hu, b, owns, shows.mono keeps⟩

/-- The operands of a node that was made for a phrase were made for phrases. -/
theorem operand (h : p.IsBehind s n) (grammatical : ∀ q ∈ p.parts, q.IsGrammatical) {v : Value}
    (hv : v ∈ (s.form n).operands) : ∃ m, v = .node m ∧ p.IsBehind s m := by
  obtain ⟨u, hu, b, owns, shows⟩ := h
  obtain ⟨c, hc, m, rfl, below⟩ := shows.exists_of_mem_operands owns.ne_node hv
  obtain ⟨u', hu', owns'⟩ := owns.operand
    (fun q hq => grammatical q (p.parts_subset u hu q hq)) hc
  exact ⟨m, rfl, u', p.parts_subset u hu u' hu', c, owns', below⟩

theorem isWhole (h : p.IsBehind s n) (grammatical : ∀ q ∈ p.parts, q.IsGrammatical) :
    s.IsWhole n := by
  refine ⟨?_, ?_, fun v hv => ?_⟩
  · obtain ⟨u, -, b, -, shows⟩ := h
    exact shows.made
  · obtain ⟨u, -, b, owns, shows⟩ := h
    have form := shows.form
    cases b with
    | literal mark c =>
      obtain ⟨v, same, -⟩ := form
      rw [same]
      trivial
    | reference mark name =>
      obtain ⟨stamp, same⟩ := form
      rw [same]
      exact ⟨⟨name, rfl, owns.reference.2⟩, nofun⟩
    | call mark callee args =>
      obtain ⟨c, items, stamp, same, -⟩ := form
      rw [same]
      exact ⟨items, stamp, rfl⟩
    | fallback mark op lhs rhs =>
      obtain ⟨l, r, same, -⟩ := form
      rw [same]
      trivial
    | ternary mark condition thenBranch elseBranch =>
      obtain ⟨c, t, e, same, -⟩ := form
      rw [same]
      trivial
    | node m kind => exact owns.label.elim
  · obtain ⟨m, rfl, -⟩ := h.operand grammatical hv
    exact ⟨m, rfl⟩

theorem isTree (h : p.IsBehind s n) (grammatical : ∀ q ∈ p.parts, q.IsGrammatical) :
    s.IsTree n := by
  have all : ∀ m, ReflTransGen s.Operand n m → p.IsBehind s m := by
    intro m reached
    induction reached with
    | refl => exact h
    | tail _ step ih =>
      obtain ⟨m', same, behind⟩ := ih.operand grammatical step
      cases same
      exact behind
  exact fun m reached => (all m reached).isWhole grammatical

end Phrase.IsBehind

/-! ## Faults that were just made await a place -/

/-- The fault was made and awaits a place. -/
def Store.Awaits (s : Store) (x : FaultRef) : Prop :=
  x.index < s.faults.size ∧ (s.fault x).awaitsPlace = true

theorem Store.awaits_addFault (s : Store) {e : Fault} (h : e.awaitsPlace = true) :
    (s.addFault e).2.Awaits ⟨s.faults.size⟩ := by
  refine ⟨?_, ?_⟩
  · show s.faults.size < (s.faults.push e).size
    rw [Array.size_push]
    exact Nat.lt_succ_self _
  · exact (congrArg Fault.awaitsPlace (s.fault_addFault_self e)).trans h

theorem Attempt.awaits_withFailedCall (s : Store) (c : FaultRef) (message : String) :
    (withFailedCall s c message).Awaits ⟨s.faults.size⟩ :=
  Store.awaits_addFault s.addStamp.2.addStamp.2 rfl

theorem Store.awaits_withUnbound (s : Store) (name : Value) (t : String) :
    (s.withUnbound name t).Awaits ⟨s.faults.size⟩ :=
  Store.awaits_addFault s.addStamp.2.addStamp.2 rfl

/-- An outcome that raises a fault leaves the faults as they are. -/
theorem awaits_of_raised {v : Value} {x : FaultRef} {o : Outcome} {w w' : World σ}
    (h : (Act.raised v : Act σ Outcome).runOn w = (.ok o, w'))
    (raised : o.result = .raised (.fault x)) (awaits : ∀ y, v = .fault y → w.store.Awaits y) :
    w'.store.Awaits x := by
  obtain ⟨same, -⟩ := runOn_raised_eq_ok h raised
  have made := awaits x same
  cases h
  exact made

/-- A fault that a rule makes awaits a place, unless the rule only raises what its node holds. -/
theorem Form.Raises.awaits {f : Form} {os : List Outcome} {o : Outcome} {x : FaultRef}
    {r r' : Run σ} (raises : f.Raises host r os (.fault x) r'.world)
    (decided : (f.next host os).runOn r = (.ok (.finish o), r'))
    (raised : o.result = .raised (.fault x)) (rule : f.kind ≠ .raise) :
    r'.world.store.Awaits x := by
  obtain ⟨frame', world'⟩ := r'
  cases raises with
  | @unbound name t _ _ _ named free kind =>
    have decided : (do return Move.finish (← Eval.ofAct (lookup r.frame.vars name)) :
        Eval σ Move).runOn r = (.ok (.finish o), ⟨frame', world'⟩) := decided
    obtain ⟨looked, -⟩ := runOn_make_eq_ok.1 decided
    rw [runOn_lookup named, free] at looked
    refine awaits_of_raised looked raised ?_
    rintro _ ⟨⟩
    exact Store.awaits_withUnbound _ _ _
  | held fixed => exact absurd rfl rule
  | copied locatable copy => exact absurd rfl rule
  | @notCallable callee args first more _ _ complete succeeded uncallable kind =>
    rw [Form.next,
      nextOfCall_of_complete (isRaised_getLastD succeeded) (Nat.le_of_eq complete.symm),
      runOn_make_eq_ok] at decided
    obtain ⟨c, s, named, -, made⟩ := runOn_callValue_of_not_callable uncallable
      (more.map Outcome.value) r.world
    rw [made] at decided
    refine awaits_of_raised decided.1 raised ?_
    rintro _ ⟨⟩
    exact Attempt.awaits_withFailedCall _ _ _
  | hostFailed failed kind cause =>
    rw [failed.next, runOn_make_eq_ok] at decided
    obtain ⟨y, w₁, guarded, made⟩ := Work.runOn_bind_eq_ok.1 decided.1
    refine awaits_of_raised made raised ?_
    rintro _ ⟨⟩
    rw [Form.guard, guardFault, Work.runOn_ofRun] at guarded
    split at guarded
    · cases guarded
    · split at guarded
      · cases guarded
        exact Attempt.awaits_withFailedCall _ _ _
      · cases guarded

/-! ## Marks tell a line -/

namespace Phrase

/-- The marks, if there are any, are a line that is not null and a column. -/
def TellsLine (mark : Mark) : Prop :=
  ∀ marks, mark = some marks →
    ∃ line column, marks = [(lineName, line), (columnName, column)] ∧ line.isNull = false

theorem tellsLine_mark? (s : Store) (v : Value) : TellsLine (s.mark? v) := by
  intro marks same
  obtain ⟨line, told, rfl⟩ := Option.map_eq_some_iff.1 same
  have told : (s.attribute? v lineName).filter (fun w => !w.isNull) = some line := told
  refine ⟨line, _, rfl, ?_⟩
  simpa using (Option.filter_eq_some_iff.1 told).2

mutual

/-- All the marks that a tree is read with tell a line. -/
theorem Reads.tellsLine {s : Store} : ∀ {p : Phrase} {v : Value}, p.Reads s v →
    ∀ q ∈ p.parts, TellsLine q.mark
  | .rule _ _ ps, v, ⟨r, vs, _, _, marked, _, rest⟩ => by
    refine List.forall_mem_cons.2 ⟨?_, ReadsAll.tellsLine rest⟩
    show TellsLine (Phrase.rule _ _ ps).mark
    rw [mark, ← marked.marks]
    split
    · exact nofun
    · exact tellsLine_mark? s _
  | .token _ _ _, _, ⟨r, _, _, _, _, _, marks⟩ => by
    refine List.forall_mem_singleton.2 ?_
    rw [mark, ← marks]
    exact tellsLine_mark? s _
  | .node _ _, _, _ => List.forall_mem_singleton.2 nofun
  | .other _, _, _ => List.forall_mem_singleton.2 nofun

theorem ReadsAll.tellsLine {s : Store} : ∀ {ps : List Phrase} {vs : List Value},
    ReadsAll s ps vs → ∀ q ∈ partsOfAll ps, TellsLine q.mark
  | [], [], _ => nofun
  | _ :: _, _ :: _, ⟨first, rest⟩ =>
    List.forall_mem_append.2 ⟨first.tellsLine, ReadsAll.tellsLine rest⟩

end

end Phrase

/-- The place of marks that tell a line tells that line. -/
theorem Store.Places.exists_line {s : Store} {marks : Attributes} {place : Value}
    (h : s.Places (some marks) place) (tells : Phrase.TellsLine (some marks)) :
    (s.line? place).isSome = true := by
  obtain ⟨d, rfl, -, same⟩ := h
  obtain ⟨line, column, rfl, told⟩ := tells marks rfl
  have said : s.line? (.position d) = (some line).filter fun w => !w.isNull := by
    show (Environment.get? (s.position d) lineName).filter _ = _
    rw [same]
    rfl
  rw [said, Option.filter, told]
  rfl

/-- The marks of an expression. -/
def Blueprint.mark : Blueprint → Mark
  | .literal mark _ | .reference mark _ | .call mark _ _ | .fallback mark _ _ _
  | .ternary mark _ _ _ => mark
  | .node _ _ => none

/-- The place of a node that is an expression is that of the marks. -/
theorem Blueprint.Shows.places {b : Blueprint} {s : Store} {n : NodeRef} (h : b.Shows s n)
    (fresh : ∀ m kind, b ≠ .node m kind) : s.Places b.mark (s.placeOf (.node n)) := by
  have held {form : Form} {mark : Mark} (h : s.Holds n form mark) :
      s.Places mark (s.placeOf (.node n)) := by
    obtain ⟨-, place, same, places⟩ := h
    rw [Store.placeOf_node, same]
    exact places
  cases b with
  | literal mark c => exact held h.choose_spec.1
  | reference mark name => exact held h.choose_spec
  | call mark callee args => exact held h.choose_spec.choose_spec.choose_spec.1
  | fallback mark op lhs rhs => exact held h.choose_spec.choose_spec.1
  | ternary mark condition thenBranch elseBranch =>
    exact held h.choose_spec.choose_spec.choose_spec.1
  | node m kind => exact absurd rfl (fresh m kind)

namespace Phrase

/-- An expression has the marks of its owner. -/
theorem Owns.mark_eq {u : Phrase} {b : Blueprint} (owns : u.Owns b) : b.mark = u.mark := by
  cases owns with
  | token became => obtain ⟨c, rfl⟩ | ⟨-, -, rfl⟩ := cases_of_token became <;> rfl
  | call | chain | ternary => rfl

/-! ## How a phrase fails -/

/-- Something may fail at the place of the phrase: it is a name, a call, a choice or an operator
that tests a truth. -/
def MayFail : Phrase → Prop
  | .token kind _ _ => kind = Terminal.name.kind
  | .rule label _ _ =>
    label = Rule.call.label ∨ label = (Rule.chain .onFalse).label ∨ label = Rule.ternary.label
  | _ => False

/-- What was made for the phrase fails by itself, after the outcomes of its operands: the name is
not bound, something is called that cannot be, the invocation fails, or the truth test does. -/
inductive Fails (host : Host σ) (vars : Environment) (w : World σ) :
    Phrase → List Outcome → FaultKind → Prop
  | unbound {name : String} {mark : Mark} {os : List Outcome} (free : vars.get? name = none) :
    Fails host vars w (.token Terminal.name.kind name mark) os .unboundName
  | notCallable {mark : Mark} {ps : List Phrase} {first : Outcome} {more : List Outcome}
      (succeeded : ∀ o ∈ first :: more, o.isRaised = false)
      (uncallable : first.value.isCallable = false) :
    Fails host vars w (.rule Rule.call.label mark ps) (first :: more) .failedCall
  | invocation {mark : Mark} {ps : List Phrase} {first : Outcome} {more : List Outcome} {c w'}
      (succeeded : ∀ o ∈ first :: more, o.isRaised = false)
      (failed : (invoke host first.value (more.map Outcome.value)).runOn w = (.error c, w')) :
    Fails host vars w (.rule Rule.call.label mark ps) (first :: more) .failedCall
  | operatorTest {mark : Mark} {ps : List Phrase} {o : Outcome} {v : Value} {c w'}
      (succeeded : o.result = .success v) (failed : (truthTest host v).runOn w = (.error c, w')) :
    Fails host vars w (.rule (Rule.chain .onFalse).label mark ps) [o] .failedCall
  | choiceTest {mark : Mark} {ps : List Phrase} {o : Outcome} {v : Value} {c w'}
      (succeeded : o.result = .success v) (failed : (truthTest host v).runOn w = (.error c, w')) :
    Fails host vars w (.rule Rule.ternary.label mark ps) [o] .failedCall

theorem Fails.mayFail {vars : Environment} {w : World σ} {u : Phrase} {os : List Outcome}
    {kind : FaultKind} (h : Fails host vars w u os kind) : u.MayFail := by
  cases h with
  | unbound => rfl
  | notCallable | invocation => exact .inl rfl
  | operatorTest => exact .inr (.inl rfl)
  | choiceTest => exact .inr (.inr rfl)

/-- Where a node raises a value by its own rule, its phrase has failed, and the value is a fault
that awaits a place. -/
theorem Owns.fails {u : Phrase} {b : Blueprint} {s : Store} {n : NodeRef} (owns : u.Owns b)
    (shows : b.Shows s n) {os : List Outcome} {o : Outcome} {e : Value} {r made : Run σ}
    (raises : (s.form n).Raises host r os e made.world)
    (decided : ((s.form n).next host os).runOn r = (.ok (.finish o), made))
    (raised : o.result = .raised e) :
    ∃ x, e = .fault x ∧ made.world.store.Awaits x ∧
      Fails host r.frame.vars r.world u os (made.world.store.fault x).kind := by
  have rule : (s.form n).kind ≠ .raise := by
    rw [shows.kind]
    cases b with
    | node m kind => exact absurd rfl (owns.ne_node m kind)
    | _ => exact nofun
  have form := shows.form
  have label := owns.label
  generalize same : s.form n = f at raises decided rule form
  cases raises with
  | @unbound name t _ x _ named free kind =>
    refine ⟨x, rfl, (Form.Raises.unbound named free kind).awaits decided raised rule, ?_⟩
    rw [kind]
    cases b with
    | reference mark name' =>
      obtain ⟨stamp, form⟩ := form
      cases form
      cases named
      obtain ⟨rfl, -⟩ := owns.reference
      exact .unbound free
    | node m kind => exact absurd rfl (owns.ne_node m kind)
    | _ => simp at form
  | held fixed => exact absurd rfl rule
  | copied locatable copy => exact absurd rfl rule
  | @notCallable callee args first more x _ complete succeeded uncallable kind =>
    refine ⟨x, rfl,
      (Form.Raises.notCallable complete succeeded uncallable kind).awaits decided raised rule, ?_⟩
    rw [kind]
    cases b with
    | call mark callee' args' =>
      obtain ⟨ps, rfl⟩ := label
      exact .notCallable succeeded uncallable
    | node m kind => exact absurd rfl (owns.ne_node m kind)
    | _ => simp at form
  | @hostFailed _ _ c w x _ failed kind cause =>
    refine ⟨x, rfl, (Form.Raises.hostFailed failed kind cause).awaits decided raised rule, ?_⟩
    rw [kind]
    cases failed with
    | invocation complete succeeded callable failed =>
      cases b with
      | call mark callee' args' =>
        obtain ⟨ps, rfl⟩ := label
        exact .invocation succeeded failed
      | node m kind => exact absurd rfl (owns.ne_node m kind)
      | _ => simp at form
    | operatorTest succeeded failed =>
      cases b with
      | fallback mark op lhs rhs =>
        obtain ⟨l, r, form, -⟩ := form
        cases form
        obtain ⟨ps, rfl⟩ := label
        exact .operatorTest succeeded failed
      | node m kind => exact absurd rfl (owns.ne_node m kind)
      | _ => simp at form
    | choiceTest succeeded failed =>
      cases b with
      | ternary mark c t e =>
        obtain ⟨ps, rfl⟩ := label
        exact .choiceTest succeeded failed
      | node m kind => exact absurd rfl (owns.ne_node m kind)
      | _ => simp at form

end Phrase

/-! ## On the way down -/

/-- The visit to a node that was made for the phrase has come so far that the phrase fails. -/
structure Position.FailsAt (host : Host σ) (vars : Environment) (c : Position σ) (u : Phrase)
    (kind : FaultKind) : Prop where
  behind : ∃ b, u.Owns b ∧ b.Shows c.run.world.store c.node
  failed : ∃ os r, c.Progress host os r ∧ u.Fails host vars r.world os kind

namespace Position

variable {a c : Position σ} {os : List Outcome} {o : Outcome} {e : Value} {r made : Run σ}

/-- Every visit below a node of a lowered tree is one to a node of that tree, in the same
environment. -/
theorem Reaches.isBehind {p : Phrase} (grammatical : ∀ q ∈ p.parts, q.IsGrammatical)
    (h : a.Reaches host c) (sound : a.IsSound) (hp : host.KeepsPlaces)
    (behind : p.IsBehind a.run.world.store a.node) :
    p.IsBehind c.run.world.store c.node ∧ c.run.frame.vars = a.run.frame.vars := by
  induction h with
  | refl => exact ⟨behind, rfl⟩
  | @tail d c reached step ih =>
    obtain ⟨above, vars⟩ := ih
    obtain ⟨slot, child⟩ := step
    have dsound := isSound_of_reaches reached sound hp.keepsTrees
    obtain ⟨before, visits⟩ := child.visits
    obtain ⟨os, r, progress, decided⟩ := child.decided
    obtain ⟨m, same, below⟩ := above.operand grammatical (Form.next_visit_mem decided)
    cases same
    refine ⟨below.mono (visits.leads.keepsPlaces hp), ?_⟩
    rw [child.vars_eq dsound hp.keepsTrees, vars]

/-- Where a visit to a node of a lowered tree raises a value by its own rule, a phrase fails there,
and the value is a fault that awaits a place and gets that of the node if the phrase has marks. -/
theorem Produces.failsAt {p : Phrase} (h : c.Produces host o e made) (sound : c.IsSound)
    (hp : host.KeepsPlaces) (behind : p.IsBehind c.run.world.store c.node)
    (raised : o.result = .raised e) :
    ∃ u ∈ p.parts, ∃ x, e = .fault x ∧ made.world.store.Awaits x ∧
      c.FailsAt host c.run.frame.vars u (made.world.store.fault x).kind ∧
      made.world.store.Places u.mark (made.world.store.placeOf c.value) := by
  obtain ⟨os, r, progress, decided, raises⟩ := h
  obtain ⟨u, hu, b, owns, shows⟩ := behind
  obtain ⟨x, same, awaits, fails⟩ := owns.fails shows raises decided raised
  rw [progress.vars_eq sound hp.keepsTrees] at fails
  have leads : c.run.Leads host made :=
    progress.leads.trans (Run.Change.leads ((c.form.makes_next os).of_run decided))
  have places := (shows.mono (leads.keepsPlaces hp)).places owns.ne_node
  rw [owns.mark_eq] at places
  exact ⟨u, hu, x, same, awaits, ⟨⟨b, owns, shows⟩, os, r, progress, fails⟩, places⟩

end Position

/-- A fault that awaits a place gets the first of some places if that tells a line. -/
theorem Store.fault_attachFirst {s : Store} {x : FaultRef} {place : Value} (more : List Value)
    (awaits : s.Awaits x) (told : (s.line? place).isSome = true) :
    (s.attachFirst (.fault x) (place :: more)).fault x =
      { s.fault x with place } := by
  have first : (place :: more).find? (fun v => (s.line? v).isSome) = some place := by
    rw [List.find?_cons, told]
  simp only [attachFirst, first, awaits.2, if_true]
  exact Store.fault_locate_self place awaits.1

theorem Store.position_attachFirst (s : Store) (e : Value) (places : List Value)
    (d : PositionRef) : (s.attachFirst e places).position d = s.position d := by
  unfold attachFirst
  split
  · split <;> rfl
  · rfl

/-! ## Where an evaluation fails -/

/-- What stands for the node at the root of a lowered tree. -/
theorem isBehind_of_lowered {s t : Store} {p : Phrase} {v : Value} {n : NodeRef}
    (reads : p.Reads s v) (orderly : s.IsOrderly) (grammatical : ∀ q ∈ p.parts, q.IsGrammatical)
    (lowered : (Attempt.lower v).runOn s = (.ok (.node n), t)) : p.IsBehind t n := by
  have all : ∀ q ∈ p.root.parts, q.IsGrammatical := by
    cases p with
    | token kind text mark =>
      exact List.forall_mem_cons.2 ⟨⟨.group, rfl⟩, grammatical⟩
    | _ => exact grammatical
  have lowers := Attempt.lowers_of_reads reads orderly
  rcases verdict : p.verdict s.interpreter with k | b
  · rw [verdict] at lowers
    obtain ⟨e, t', fails, -⟩ := lowers
    rw [fails] at lowered
    cases lowered
  · rw [verdict] at lowers
    obtain ⟨n', t', runs, -, shows⟩ := lowers
    rw [runs] at lowered
    cases lowered
    obtain ⟨u, hu, owns⟩ := Phrase.exists_owns p.root all (Phrase.translated_of_verdict all verdict)
    refine ⟨u, ?_, b, owns, shows⟩
    cases p with
    | token kind text mark =>
      obtain rfl | hu := List.mem_cons.1 hu
      · exact absurd owns Phrase.Owns.not_group
      · exact hu
    | _ => exact hu

/-- An evaluation of a lowered tree ends with a raised value only because a phrase of the tree has
failed: a name that is not bound, or a call, an operator or a choice that makes a failed call. The
value is that fault, and if all the phrases that may fail have marks, then its place is a position
with the marks of the very phrase that failed. -/
theorem runOn_evaluate_of_lowered {s t : Store} {p : Phrase} {v : Value} {n : NodeRef}
    (reads : p.Reads s v) (orderly : s.IsOrderly) (grammatical : ∀ q ∈ p.parts, q.IsGrammatical)
    (marked : ∀ q ∈ p.parts, q.MayFail → q.mark.isSome = true)
    (lowered : (Attempt.lower v).runOn s = (.ok (.node n), t)) {w w' : World σ}
    (keeps : t.KeepsPlaces w.store) (hp : host.KeepsPlaces) {q : Request}
    (answers : host.Answers q.options.debugTrace) {o : Outcome} {e : Value}
    (h : (evaluate host q (.node n)).runOn w = (.ok o, w')) (raised : o.result = .raised e) :
    ∃ u ∈ p.parts, ∃ marks x d, u.mark = some marks ∧ e = .fault x ∧
      (w'.store.fault x).place = .position d ∧ w'.store.position d = marks ∧
      ∃ below last made r, r.world = w' ∧
        Position.Provenance host o e (.start q n w :: below) made r ∧
        (Position.start q n w :: below).getLast? = some last ∧
        last.FailsAt host q.environment u (w'.store.fault x).kind := by
  have hk := hp.keepsTrees
  have behind : p.IsBehind w.store n :=
    (isBehind_of_lowered reads orderly grammatical lowered).mono keeps
  have tree := behind.isTree grammatical
  have sound := Position.isSound_start q tree
  obtain ⟨below, made, r, world, provenance, quiet⟩ := exists_provenance_of_raised hk tree h raised
  obtain ⟨-, -, -, store⟩ := quiet answers
  obtain ⟨last, isLast, produces⟩ := provenance.produced
  have reached : (Position.start q n w).Reaches host last := by
    refine List.relationReflTransGen_of_exists_isChain_cons below
      (provenance.chain.imp fun _ _ ⟨slot, child, _⟩ => ⟨slot, child⟩) ?_
    rw [List.getLast?_eq_some_getLast (List.cons_ne_nil _ _)] at isLast
    exact Option.some.inj isLast
  have lastSound := Position.isSound_of_reaches reached sound hk
  obtain ⟨lastBehind, vars⟩ := Position.Reaches.isBehind grammatical reached sound hp behind
  obtain ⟨u, hu, x, rfl, awaits, fails, places⟩ :=
    produces.failsAt lastSound hp lastBehind raised
  obtain ⟨os, r₀, -, failed⟩ := fails.failed
  obtain ⟨marks, same⟩ := Option.isSome_iff_exists.1 (marked u hu failed.mayFail)
  rw [same] at places
  have told := places.exists_line (same ▸ reads.tellsLine u hu)
  obtain ⟨d, place, -, position⟩ := places
  obtain ⟨front, path⟩ := List.getLast?_eq_some_iff.1 isLast
  have fault : w'.store.fault x =
      { made.world.store.fault x with place := .position d } := by
    rw [store, path, List.reverse_concat, List.map_cons,
      Store.fault_attachFirst _ awaits told, place]
  refine ⟨u, hu, marks, x, d, same, rfl, ?_, ?_, below, last, made, r, world, provenance, isLast,
    ?_⟩
  · rw [fault]
  · rw [store, Store.position_attachFirst, position]
  · rw [fault]
    have vars : last.run.frame.vars = q.environment := vars
    rw [vars] at fails
    exact fails

/-- A host that does nothing keeps all places. -/
theorem keepsPlaces_idle : Host.idle.KeepsPlaces :=
  ⟨fun _ _ w => .refl w.store, fun _ w => .refl w.store⟩

/-- The tokens of `null ?? x` and the rule over them. -/
def nameStore : Store :=
  let token (kind text : String) (column : Int) : Token :=
    ⟨text, .str kind 1, .str text 2, [(lineName, .int 1 3), (columnName, .int column 4)]⟩
  { Store.empty with
    tokens := #[token "NULL" "null" 1, token "QQ" "??" 6, token "NAME" "x" 9]
    trees := #[⟨.str "nullish" 5, .list [.token ⟨0⟩, .token ⟨1⟩, .token ⟨2⟩] 6, .extent ⟨0⟩, []⟩]
    extents := #[[(blankName, .bool false), (lineName, .int 1 3), (columnName, .int 1 4)]]
    nextStamp := 7 }

/-- What the rule of `nameStore` reads as. -/
def namePhrase : Phrase :=
  let mark (column : Int) : Mark := some [(lineName, .int 1 3), (columnName, .int column 4)]
  .rule "nullish" (mark 1)
    [.token "NULL" "null" (mark 1), .token "QQ" "??" (mark 6), .token "NAME" "x" (mark 9)]

theorem reads_namePhrase : namePhrase.Reads nameStore (.tree ⟨0⟩) :=
  ⟨⟨0⟩, _, rfl, rfl, Store.marked_of_blank (b := false) rfl rfl, rfl,
    ⟨⟨0⟩, 2, rfl, rfl, rfl, rfl, rfl⟩, ⟨⟨1⟩, 2, rfl, rfl, rfl, rfl, rfl⟩,
    ⟨⟨2⟩, 2, rfl, rfl, rfl, rfl, rfl⟩, trivial⟩

/-- The world in which the rule of `nameStore` was lowered: the operands have the places of their
tokens and the operator has that of the rule. -/
def loweredWorld : World Unit :=
  let marks (column : Int) : Attributes := [(lineName, .int 1 3), (columnName, .int column 4)]
  ⟨{ nameStore with
      positions := #[marks 1, marks 9, marks 1]
      nodes := #[⟨.literal .null, .position ⟨0⟩, []⟩, ⟨.reference (.str "x" 2), .position ⟨1⟩, []⟩,
        ⟨.fallback .onNull (.node ⟨0⟩) (.node ⟨1⟩), .position ⟨2⟩, []⟩] },
    .empty, #[], ()⟩

/-- The name that is not bound is reported at its own place, which is not that of the operator. -/
theorem runOn_evaluate_of_namePhrase :
    namePhrase.Reads nameStore (.tree ⟨0⟩) ∧ nameStore.IsOrderly ∧
    (∀ q ∈ namePhrase.parts, q.IsGrammatical) ∧
    (∀ q ∈ namePhrase.parts, q.MayFail → q.mark.isSome = true) ∧
    (Attempt.lower (.tree ⟨0⟩)).runOn nameStore = (.ok (.node ⟨2⟩), loweredWorld.store) ∧
    Host.idle.KeepsPlaces ∧ Host.idle.Answers Request.standard.options.debugTrace ∧
    ∃ o w', (evaluate Host.idle Request.standard (.node ⟨2⟩)).runOn loweredWorld = (.ok o, w') ∧
      o.result = .raised (.fault ⟨0⟩) ∧
      w'.store.position ⟨1⟩ = [(lineName, .int 1 3), (columnName, .int 9 4)] ∧
      ∃ u ∈ namePhrase.parts, ∃ marks x d, u.mark = some marks ∧ Value.fault ⟨0⟩ = .fault x ∧
        (w'.store.fault x).place = .position d ∧ w'.store.position d = marks ∧
        ∃ below last made r, r.world = w' ∧
          Position.Provenance Host.idle o (.fault ⟨0⟩)
            (.start .standard ⟨2⟩ loweredWorld :: below) made r ∧
          (Position.start .standard ⟨2⟩ loweredWorld :: below).getLast? = some last ∧
          last.FailsAt Host.idle Request.standard.environment u (w'.store.fault x).kind := by
  have orderly : nameStore.IsOrderly := nofun
  have grammatical : ∀ q ∈ namePhrase.parts, q.IsGrammatical :=
    List.forall_mem_cons.2 ⟨⟨.chain .onNull, rfl⟩, List.forall_mem_cons.2 ⟨trivial,
      List.forall_mem_cons.2 ⟨trivial, List.forall_mem_singleton.2 trivial⟩⟩⟩
  have marked : ∀ q ∈ namePhrase.parts, q.MayFail → q.mark.isSome = true :=
    List.forall_mem_cons.2 ⟨fun _ => rfl, List.forall_mem_cons.2 ⟨fun _ => rfl,
      List.forall_mem_cons.2 ⟨fun _ => rfl, List.forall_mem_singleton.2 fun _ => rfl⟩⟩⟩
  have answers : Host.idle.Answers Request.standard.options.debugTrace :=
    answers_of_isHosted_eq_false rfl
  have lowered : (Attempt.lower (.tree ⟨0⟩)).runOn nameStore =
      (.ok (.node ⟨2⟩), loweredWorld.store) := by cbv
  have raises : ((evaluate Host.idle Request.standard (.node ⟨2⟩)).runOn loweredWorld).1 =
      .ok ⟨⟨1⟩, .raised (.fault ⟨0⟩)⟩ := by cbv
  have place : ((evaluate Host.idle Request.standard (.node ⟨2⟩)).runOn
      loweredWorld).2.store.position ⟨1⟩ = [(lineName, .int 1 3), (columnName, .int 9 4)] := by
    cbv
  generalize ending : (evaluate Host.idle Request.standard (.node ⟨2⟩)).runOn loweredWorld = x
    at raises place
  obtain ⟨result, w'⟩ := x
  obtain rfl : result = .ok ⟨⟨1⟩, .raised (.fault ⟨0⟩)⟩ := raises
  have located := runOn_evaluate_of_lowered (w := loweredWorld) reads_namePhrase orderly
    grammatical marked lowered (.refl loweredWorld.store) keepsPlaces_idle answers ending rfl
  exact ⟨reads_namePhrase, orderly, grammatical, marked, lowered, keepsPlaces_idle, answers, _, w',
    rfl, rfl, place, located⟩

end Fallback
