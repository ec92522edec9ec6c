import Fallback.Proofs.Comparison
import Fallback.Proofs.Guard
import Fallback.Proofs.Itinerary
import Fallback.Proofs.Keeping
import Fallback.Proofs.Shape

/-!
Rules that decide again.

Two evaluations of one tree are compared, the second of which begins when the first one has ended.
What the second raises is what the first has raised, or a fault that was made anew in its place:
`Value.Echoes` says so, and that the new one resembles the other when both evaluations have ended.
`During` holds what is known of the two stores on the way. That a new fault has the place of the
other one is asked only of a fault to which nothing else can come in between (`Renews`); of what an
evaluation ends with this is always so.

The host is asked in three ways, `Ask`, and `Form.ask?` says what a rule asks it for. As long as the
host answers in the same way (`Ask.Recurs`), a rule makes the same move again: `Form.echoes_next`.
Nothing is said of hosts that change what is there; `Host.Keeps` excludes them.
-/
namespace Fallback

open List (Forall₂)
open Relation (ReflTransGen)

variable {σ : Type} {host : Host σ}

/-! ## Faults that resemble each other -/

/-- The message of a fault, as the only argument of it. -/
def Fault.Tells (e : Fault) (message : String) : Prop :=
  ∃ stamp stamp', e.args = .tuple [.str message stamp] stamp'

namespace Store

/-- The values are equivalent as faults, with levels of nesting to spare. -/
def Resembles (s : Store) (room : Nat) (v w : Value) : Prop :=
  ∃ depth, depth + room ≤ s.interpreter.valueDepth ∧ s.equivalent depth v w = .ok true

variable {s s' final : Store} {room : Nat} {x y : FaultRef} {message : String}

/-- Texts with the same letters are equal, and so are tuples of one such text each. -/
theorem equal_messages (s : Store) (depth : Nat) (message : String) (a b c d : Nat) :
    s.equal (depth + 2) (.tuple [.str message a] b) (.tuple [.str message c] d) = .ok true := by
  have texts : s.equal (depth + 1) (.str message a) (.str message c) = .ok true := by
    unfold equal
    simp [listItems?, text?]
  have same : sameOr (s.equal (depth + 1)) (.str message a) (.str message c) = .ok true := by
    rw [sameOr, texts, ite_self]
  unfold equal
  simp only [relatedItems, same]
  rfl

/-- Faults of one kind with the same message are equivalent, if the causes of failed calls are. -/
theorem equivalent_of_tells (depth : Nat) (kind : (s.fault x).kind = (s.fault y).kind)
    (tells : (s.fault x).Tells message) (tells' : (s.fault y).Tells message)
    (causes : (s.fault x).kind = .failedCall → ∀ c d, (s.fault x).cause? = some c →
      (s.fault y).cause? = some d → s.equivalent (depth + 2) c d = .ok true) :
    s.equivalent (depth + 3) (.fault x) (.fault y) = .ok true := by
  obtain ⟨a, b, args⟩ := tells
  obtain ⟨c, d, args'⟩ := tells'
  have held : ∀ e : FaultRef, s.attribute? (.fault e) argsName = some (s.fault e).args :=
    fun e => rfl
  have agree := s.equal_messages depth message a b c d
  unfold equivalent
  simp only [typeName_fault_iff.2 kind, held, args, args']
  split
  · rfl
  · simp only [Value.isNull, Bool.or_self, Bool.false_eq_true, if_false, ne_eq, not_true, bind,
      Except.bind, agree, if_true]
    split
    · next failed first second => exact causes failed _ _ first second
    · rfl

namespace Resembles

theorem mono {less : Nat} {v w : Value} (h : s.Resembles room v w) (le : less ≤ room) :
    s.Resembles less v w := by
  obtain ⟨depth, enough, equivalent⟩ := h
  exact ⟨depth, Nat.le_trans (Nat.add_le_add_left le depth) enough, equivalent⟩

theorem areEquivalent {v w : Value} (h : s.Resembles room v w) :
    s.areEquivalent v w = .ok true := by
  obtain ⟨depth, enough, equivalent⟩ := h
  exact s.equivalent_mono (Nat.le_trans (Nat.le_add_right _ _) enough) equivalent

theorem kind_eq (h : s.Resembles room (.fault x) (.fault y)) :
    (s.fault x).kind = (s.fault y).kind := by
  obtain ⟨depth, -, equivalent⟩ := h
  cases depth with
  | zero => cases equivalent
  | succ depth =>
    unfold Store.equivalent at equivalent
    dsimp only at equivalent
    split at equivalent
    · next same =>
      obtain rfl : x = y := by simpa [Value.isSame, Value.identity] using same
      rfl
    · split at equivalent
      · next null => cases null
      · split at equivalent
        · cases equivalent
        · next named => exact typeName_fault_iff.1 (not_not.1 named)

/-- Faults that were made of one kind and with the same message resemble each other later on, if the
causes of failed calls do. -/
theorem of_tells (ages : s.Ages final) (ages' : s'.Ages final) (made : s.Has (.fault x))
    (made' : s'.Has (.fault y)) (kind : (s.fault x).kind = (s'.fault y).kind)
    (tells : (s.fault x).Tells message) (tells' : (s'.fault y).Tells message)
    (causes : (s.fault x).kind = .failedCall → ∃ c d, (s.fault x).cause? = some c ∧
      (s'.fault y).cause? = some d ∧ final.Resembles (room + 1) c d)
    (space : room + 3 ≤ final.interpreter.valueDepth) :
    final.Resembles room (.fault x) (.fault y) := by
  have first := ages.fault made
  have second := ages'.fault made'
  have later : (final.fault x).kind = (final.fault y).kind := by
    rw [first.kind_eq, second.kind_eq, kind]
  have tell : (final.fault x).Tells message := by rwa [Fault.Tells, first.args_eq]
  have tell' : (final.fault y).Tells message := by rwa [Fault.Tells, second.args_eq]
  by_cases failed : (s.fault x).kind = .failedCall
  · obtain ⟨c, d, cause, cause', k, enough, equivalent⟩ := causes failed
    have deep : final.equivalent (max k 2 - 2 + 2) c d = .ok true := by
      rw [Nat.sub_add_cancel (Nat.le_max_right k 2)]
      exact final.equivalent_mono (Nat.le_max_left k 2) equivalent
    refine ⟨max k 2 - 2 + 3, by omega,
      equivalent_of_tells _ later tell tell' fun _ c' d' h h' => ?_⟩
    rw [first.cause?_eq, cause] at h
    rw [second.cause?_eq, cause'] at h'
    cases h
    cases h'
    exact deep
  · refine ⟨3, by omega, equivalent_of_tells 0 later tell tell' fun failed' => ?_⟩
    rw [first.kind_eq] at failed'
    exact absurd failed' failed

end Resembles

end Store

/-! ## What is raised again -/

/-- The first fault was made in the first evaluation and the second in the second, of the same kind
and with the same place, unless a fault that was there with the first gets a place later on in the
first evaluation, which has ended in the store `base`. -/
structure Renews (base s s' : Store) (x y : FaultRef) : Prop where
  made : x.index < s.faults.size
  fresh : base.faults.size ≤ y.index
  made' : y.index < s'.faults.size
  kind : (s.fault x).kind = (s'.fault y).kind
  place : (∀ z : FaultRef, z.index < s.faults.size → z ≠ x → base.fault z = s.fault z) →
    (s.fault x).place = (s'.fault y).place

/-- The second evaluation raises what the first has raised: the same thing, or a new fault that
resembles the one that was new then. -/
inductive Value.Echoes (base final s s' : Store) : Value → Value → Prop
  | same {e} (there : ∀ x, e = .fault x → s.Has (.fault x)) : Echoes base final s s' e e
  | renewed {x y} (renews : Renews base s s' x y)
      (alike : final.Resembles 2 (.fault x) (.fault y)) :
      Echoes base final s s' (.fault x) (.fault y)

/-- Both succeed with the same value, or what the one raises is raised again by the other. -/
inductive Result.Echoes (base final s s' : Store) : Result → Result → Prop
  | success {v} : Echoes base final s s' (.success v) (.success v)
  | raised {e e'} (h : e.Echoes base final s s' e') :
    Echoes base final s s' (.raised e) (.raised e')

/-- The outcome is there, and its result is the one that it was made with. -/
def Outcome.IsKept (s : Store) (o : Outcome) : Prop :=
  o.self.index < s.outcomes.size ∧ (s.outcome o.self).result = o.result

/-- The outcomes are there, and the second has the result of the first again. -/
structure Outcome.Echoes (base final s s' : Store) (o o' : Outcome) : Prop where
  kept : o.IsKept s
  kept' : o'.IsKept s'
  result : o.result.Echoes base final s s' o'.result

/-- Both outcomes are successes with the same value, or both are raised. -/
inductive Outcome.Agrees (o o' : Outcome) : Prop
  | success {v} (first : o.result = .success v) (second : o'.result = .success v)
  | raised {e e'} (first : o.result = .raised e) (second : o'.result = .raised e')

namespace Outcome.Agrees

variable {o o' : Outcome} {os os' : List Outcome}

theorem value_eq (h : o.Agrees o') : o'.value = o.value := by
  cases h with
  | success first second => rw [Outcome.value, Outcome.value, first, second]
  | raised first second => rw [Outcome.value, Outcome.value, first, second]

theorem isRaised_eq (h : o.Agrees o') : o'.isRaised = o.isRaised := by
  cases h with
  | success first second => rw [Outcome.isRaised, Outcome.isRaised, first, second]
  | raised first second => rw [Outcome.isRaised, Outcome.isRaised, first, second]

theorem map_value_eq (all : Forall₂ Agrees os os') : os'.map value = os.map value := by
  induction all with
  | nil => rfl
  | cons head _ ih => rw [List.map_cons, List.map_cons, head.value_eq, ih]

end Outcome.Agrees

section Echoes

variable {base final s s' t t' : Store}

theorem Renews.mono {x y : FaultRef} (h : Renews base s s' x y) (keeps : s.Keeps t)
    (keeps' : s'.Keeps t') : Renews base t t' x y := by
  have first := keeps.fault h.made
  have second := keeps'.fault h.made'
  refine ⟨(keeps.le.kind h.made).1, h.fresh, (keeps'.le.kind h.made').1, ?_, fun untouched => ?_⟩
  · rw [first, second, h.kind]
  · rw [first, second]
    refine h.place fun z made ne => ?_
    rw [untouched z (keeps.le.kind made).1 ne, keeps.fault made]

theorem Value.Echoes.mono {e e' : Value} (h : e.Echoes base final s s' e') (keeps : s.Keeps t)
    (keeps' : s'.Keeps t') : e.Echoes base final t t' e' := by
  cases h with
  | same there => exact .same fun x same => keeps.has (there x same)
  | renewed renews alike => exact .renewed (renews.mono keeps keeps') alike

theorem Result.Echoes.mono {r r' : Result} (h : r.Echoes base final s s' r') (keeps : s.Keeps t)
    (keeps' : s'.Keeps t') : r.Echoes base final t t' r' := by
  cases h with
  | success => exact .success
  | raised echoes => exact .raised (echoes.mono keeps keeps')

theorem Outcome.IsKept.mono {o : Outcome} (h : o.IsKept s) (retains : s.Retains t) : o.IsKept t :=
  ⟨(retains.outcome h.1).1, (retains.outcome h.1).2.trans h.2⟩

theorem Outcome.isKept_addOutcome (s : Store) (r : Result) :
    Outcome.IsKept (s.addOutcome r).2 ⟨(s.addOutcome r).1, r⟩ := by
  refine ⟨?_, s.outcome_addOutcome_self r⟩
  show s.outcomes.size < (s.outcomes.push _).size
  rw [Array.size_push]
  exact Nat.lt_succ_self _

theorem Outcome.Echoes.mono {o o' : Outcome} (h : o.Echoes base final s s' o') (keeps : s.Keeps t)
    (keeps' : s'.Keeps t') : o.Echoes base final t t' o' :=
  ⟨h.kept.mono keeps.toRetains, h.kept'.mono keeps'.toRetains, h.result.mono keeps keeps'⟩

theorem Outcome.Echoes.agrees {o o' : Outcome} (h : o.Echoes base final s s' o') :
    o.Agrees o' := by
  have result := h.result
  generalize first : o.result = result₁ at result
  generalize second : o'.result = result₂ at result
  cases result with
  | success => exact .success first second
  | raised _ => exact .raised first second

end Echoes

/-! ## Calls of the host -/

/-- Two calls of the host end in the same way: with the same result, or with faults that have the
same text and resemble each other later on. -/
inductive Recurs (final : Store) {α : Type} : Ending σ α → Ending σ α → Prop
  | ok {a w w'} : Recurs final (.ok a, w) (.ok a, w')
  | error {c d w w'} (there : w.store.Has (.fault c)) (there' : w'.store.Has (.fault d))
      (text : w'.store.plainText (.fault d) = w.store.plainText (.fault c))
      (alike : final.Resembles 3 (.fault c) (.fault d)) :
      Recurs final (.error c, w) (.error d, w')

/-- The first store belongs to an evaluation that ends in the store `base`, and the second to a
later one that ends in the store `final` and has kept what the first one left. -/
structure During (base final s s' : Store) : Prop where
  early : s.Ages base
  kept : base.Keeps s'
  late : s'.Ages final

namespace During

variable {base final s s' t t' : Store} (h : During base final s s')
include h

theorem ages : s.Ages final :=
  h.early.trans (h.kept.ages.trans h.late)

theorem before (keeps : t.Keeps s) (keeps' : t'.Keeps s') (kept : base.Keeps t') :
    During base final t t' :=
  ⟨keeps.ages.trans h.early, kept, keeps'.ages.trans h.late⟩

/-- A fault that the second evaluation makes was not there when the first had ended. -/
theorem fresh : base.faults.size ≤ s'.faults.size :=
  Store.size_le_of_le h.kept.le

/-- Faults that resemble each other are of the same kind at any time. -/
theorem kind_eq {room : Nat} {c d : FaultRef} (there : s.Has (.fault c))
    (there' : s'.Has (.fault d)) (alike : final.Resembles room (.fault c) (.fault d)) :
    (s.fault c).kind = (s'.fault d).kind := by
  rw [← (h.ages.fault there).kind_eq, ← (h.late.fault there').kind_eq, alike.kind_eq]

/-- New faults of one kind with the same message and no place are the same again, if the causes of
failed calls are. -/
theorem echoes_new {x y : FaultRef} {message : String} (there : s.Has (.fault x))
    (there' : s'.Has (.fault y)) (fresh : base.faults.size ≤ y.index)
    (kind : (s.fault x).kind = (s'.fault y).kind)
    (place : (s.fault x).place = (s'.fault y).place) (tells : (s.fault x).Tells message)
    (tells' : (s'.fault y).Tells message)
    (causes : (s.fault x).kind = .failedCall → ∃ c d, (s.fault x).cause? = some c ∧
      (s'.fault y).cause? = some d ∧ final.Resembles 3 c d) :
    (Value.fault x).Echoes base final s s' (.fault y) :=
  .renewed ⟨there, fresh, there', kind, fun _ => place⟩
    (.of_tells h.ages h.late there there' kind tells tells' causes
      (final.interpreter.le_valueDepth (by decide)))

end During

/-- What two pieces of work end with: results that are related, or faults that resemble each
other. -/
inductive EndAgain (final : Store) {α : Type} (R : α → α → Prop) :
    Except FaultRef α → Except FaultRef α → Prop
  | ok {a b} (related : R a b) : EndAgain final R (.ok a) (.ok b)
  | error {c d} (alike : final.Resembles 0 (.fault c) (.fault d)) :
      EndAgain final R (.error c) (.error d)

/-- In two evaluations the work ends with outcomes of which the second has the result of the first
again, or it breaks off in the same way. -/
def Act.Echoes (base final : Store) (x x' : Act σ Outcome) (w w' : World σ) : Prop :=
  During base final (x.runOn w).2.store (x'.runOn w').2.store →
    EndAgain final
      (Outcome.Echoes base final (x.runOn w).2.store (x'.runOn w').2.store)
      (x.runOn w).1 (x'.runOn w').1

section Acts

variable {base final : Store} {w w' : World σ}

theorem echoes_success (v : Value) :
    (Act.success v : Act σ Outcome).Echoes base final (Act.success v) w w' := fun _ =>
  .ok ⟨Outcome.isKept_addOutcome _ _, Outcome.isKept_addOutcome _ _, .success⟩

theorem echoes_raised {e e' : Value} (h : e.Echoes base final w.store w'.store e') :
    (Act.raised e : Act σ Outcome).Echoes base final (Act.raised e') w w' := fun _ =>
  .ok ⟨Outcome.isKept_addOutcome _ _, Outcome.isKept_addOutcome _ _,
    .raised (h.mono (Store.Change.outcome _).keeps (Store.Change.outcome _).keeps)⟩

theorem Store.has_addFault (s : Store) (e : Fault) :
    (s.addFault e).2.Has (.fault ⟨s.faults.size⟩) := by
  show s.faults.size < (s.faults.push e).size
  rw [Array.size_push]
  exact Nat.lt_succ_self _

/-- Reports of one kind with the same message resemble each other. -/
theorem resembles_report (s s' : Store) {kind : FaultKind} (place place' : Value)
    (message : String) (unfailed : kind ≠ .failedCall)
    (during : During base final
      (s.addStamp.2.addStamp.2.addFault (Attempt.faultAt s kind place message)).2
      (s'.addStamp.2.addStamp.2.addFault (Attempt.faultAt s' kind place' message)).2) :
    final.Resembles 3 (.fault ⟨s.faults.size⟩) (.fault ⟨s'.faults.size⟩) := by
  have first := s.addStamp.2.addStamp.2.fault_addFault_self
    (Attempt.faultAt s kind place message)
  have second := s'.addStamp.2.addStamp.2.fault_addFault_self
    (Attempt.faultAt s' kind place' message)
  have tells : Fault.Tells _ message := ⟨_, _, congrArg Fault.args first⟩
  have tells' : Fault.Tells _ message := ⟨_, _, congrArg Fault.args second⟩
  refine .of_tells during.ages during.late (Store.has_addFault _ _) (Store.has_addFault _ _)
    ((congrArg Fault.kind first).trans (congrArg Fault.kind second).symm) tells tells'
    (fun failed => ?_) (final.interpreter.le_valueDepth (by decide))
  exact absurd ((congrArg Fault.kind first).symm.trans failed) unfailed

theorem Misuse.kind_ne_failedCall (m : Misuse) : m.kind ≠ .failedCall := by
  cases m <;> simp [kind]

theorem Attempt.keeps_withFailedCall (s : Store) (c : FaultRef) (message : String) :
    s.Keeps (withFailedCall s c message) :=
  Store.keeps_of_changes (((ReflTransGen.single .stamp).tail .stamp).tail (.fault _))

/-- Whatever a guard makes of a fault, what is there is kept. -/
theorem keeps_guard (letsThrough : FaultKind → Bool) (message : String → String) (c : FaultRef)
    (w : World σ) :
    w.store.Keeps
      ((do Act.raised (.fault (← guardFault letsThrough message c)) : Act σ Outcome).runOn
        w).2.store := by
  rw [Work.runOn_bind, guardFault, Work.runOn_ofRun]
  split
  · next made =>
    split at made
    · cases made
    · split at made
      · cases made
        exact (Attempt.keeps_withFailedCall _ _ _).trans (Store.Change.outcome _).keeps
      · cases made
  · next broken =>
    split at broken
    · cases broken
      exact .refl _
    · split at broken
      · cases broken
      · next m _ =>
        cases broken
        have misuses : (Attempt.misuse m : Attempt FaultRef).Makes Store.Change :=
          Attempt.makes_misuse m
        exact Store.keeps_of_changes (misuses w.store)

/-- Two failed calls with the same message are the same again, if their causes are. -/
theorem During.echoes_failedCall {s s' : Store} {c d : FaultRef} {message : String}
    (alike : final.Resembles 3 (.fault c) (.fault d)) (fresh : base.faults.size ≤ s'.faults.size)
    (during : During base final (Attempt.withFailedCall s c message)
      (Attempt.withFailedCall s' d message)) :
    (Value.fault ⟨s.faults.size⟩).Echoes base final (Attempt.withFailedCall s c message)
      (Attempt.withFailedCall s' d message) (.fault ⟨s'.faults.size⟩) := by
  have first := Attempt.fault_withFailedCall s c message
  have second := Attempt.fault_withFailedCall s' d message
  have tells : Fault.Tells _ message := ⟨_, _, congrArg Fault.args first⟩
  have tells' : Fault.Tells _ message := ⟨_, _, congrArg Fault.args second⟩
  exact during.echoes_new (Store.has_addFault _ _) (Store.has_addFault _ _) fresh
    ((congrArg Fault.kind first).trans (congrArg Fault.kind second).symm)
    ((congrArg Fault.place first).trans (congrArg Fault.place second).symm) tells tells'
    fun _ => ⟨.fault c, .fault d, congrArg Fault.cause? first, congrArg Fault.cause? second, alike⟩

/-- A guard makes the same again of faults that resemble each other and have the same text. -/
theorem echoes_guard (letsThrough : FaultKind → Bool) (message : String → String) {c d : FaultRef}
    (kept : base.Keeps w'.store) (there : w.store.Has (.fault c)) (there' : w'.store.Has (.fault d))
    (text : w'.store.plainText (.fault d) = w.store.plainText (.fault c))
    (alike : final.Resembles 3 (.fault c) (.fault d)) :
    (do Act.raised (.fault (← guardFault letsThrough message c)) : Act σ Outcome).Echoes base final
      (do Act.raised (.fault (← guardFault letsThrough message d))) w w' := by
  intro ends
  have now := ends.before (keeps_guard _ _ _ _) (keeps_guard _ _ _ _) kept
  have kind := now.kind_eq there there' alike
  have named : w'.store.namedText (.fault d) = w.store.namedText (.fault c) := by
    rw [Store.namedText, Store.namedText, text, Store.typeName, Store.typeName, kind]
  rw [Work.runOn_bind, Work.runOn_bind] at ends ⊢
  rw [guardFault, guardFault, Work.runOn_ofRun, Work.runOn_ofRun, named, ← kind] at ends ⊢
  generalize letsThrough (w.store.fault c).kind = lets at ends ⊢
  generalize w.store.namedText (.fault c) = shown at ends ⊢
  cases lets with
  | true => exact .error (alike.mono (Nat.zero_le _))
  | false =>
    simp only [Bool.false_eq_true, if_false] at ends ⊢
    cases shown with
    | error m =>
      exact .error ((resembles_report w.store w'.store .null .null m.message
        m.kind_ne_failedCall ends).mono (Nat.zero_le _))
    | ok shown =>
      let t := Attempt.withFailedCall w.store c (message shown)
      let t' := Attempt.withFailedCall w'.store d (message shown)
      have made : During base final t t' :=
        ends.before (Store.Change.outcome _).keeps (Store.Change.outcome _).keeps
          (kept.trans (Attempt.keeps_withFailedCall _ _ _))
      exact echoes_raised (made.echoes_failedCall alike now.fresh) ends

theorem Store.keeps_withUnbound (s : Store) (name : Value) (t : String) :
    s.Keeps (s.withUnbound name t) :=
  keeps_of_changes (((ReflTransGen.single .stamp).tail .stamp).tail (.fault _))

theorem Store.keeps_withUncallable (s : Store) (v : Value) : s.Keeps (s.withUncallable v) :=
  keeps_of_changes (((ReflTransGen.single .stamp).tail .stamp).tail (.fault _))

/-- A name that is missing again is reported with the same again. -/
theorem During.echoes_unbound {s s' : Store} {name : Value} {t : String}
    (fresh : base.faults.size ≤ s'.faults.size)
    (during : During base final (s.withUnbound name t) (s'.withUnbound name t)) :
    (Value.fault ⟨s.faults.size⟩).Echoes base final (s.withUnbound name t) (s'.withUnbound name t)
      (.fault ⟨s'.faults.size⟩) := by
  let cell (s : Store) : Fault :=
    ⟨.unboundName, .tuple [.str s!"Name '{t}' not found" s.nextStamp] (s.nextStamp + 1), .null,
      .null, [(Fault.subjectName, name)]⟩
  have made (s : Store) : (s.withUnbound name t).fault ⟨s.faults.size⟩ = cell s :=
    s.addStamp.2.addStamp.2.fault_addFault_self (cell s)
  have tells (s : Store) : Fault.Tells _ s!"Name '{t}' not found" :=
    ⟨_, _, congrArg Fault.args (made s)⟩
  refine during.echoes_new (Store.has_addFault _ _) (Store.has_addFault _ _) fresh
    ((congrArg Fault.kind (made s)).trans (congrArg Fault.kind (made s')).symm)
    ((congrArg Fault.place (made s)).trans (congrArg Fault.place (made s')).symm) (tells s)
    (tells s') fun failed => ?_
  rw [made s] at failed
  cases failed

/-- What cannot be called is reported with the same again. -/
theorem During.echoes_uncallable {s s' : Store} {v : Value} (same : s'.typeName v = s.typeName v)
    {message : String} (kept : base.Keeps s')
    (during : During base final
      (Attempt.withFailedCall (s.withUncallable v) ⟨s.faults.size⟩ message)
      (Attempt.withFailedCall (s'.withUncallable v) ⟨s'.faults.size⟩ message)) :
    (Value.fault ⟨(s.withUncallable v).faults.size⟩).Echoes base final
      (Attempt.withFailedCall (s.withUncallable v) ⟨s.faults.size⟩ message)
      (Attempt.withFailedCall (s'.withUncallable v) ⟨s'.faults.size⟩ message)
      (.fault ⟨(s'.withUncallable v).faults.size⟩) := by
  have kept' := kept.trans (s'.keeps_withUncallable v)
  have before := during.before (Attempt.keeps_withFailedCall _ _ _)
    (Attempt.keeps_withFailedCall _ _ _) kept'
  refine during.echoes_failedCall ?_ (Store.size_le_of_le kept'.le)
  rw [Store.withUncallable, Store.withUncallable, same] at before
  exact resembles_report s s' .null .null _ (by decide) before

/-- A name that is looked up again is found again, or it is missing again. -/
theorem echoes_lookup {vars : Environment} {name : Value} {t : String} (kept : base.Keeps w'.store)
    (named : w.store.text? name = some t) (named' : w'.store.text? name = some t) :
    (lookup vars name : Act σ Outcome).Echoes base final (lookup vars name) w w' := by
  intro ends
  rw [runOn_lookup named, runOn_lookup named'] at ends ⊢
  generalize vars.get? t = bound at ends ⊢
  cases bound with
  | some v => exact echoes_success v ends
  | none =>
    have made : During base final (w.store.withUnbound name t) (w'.store.withUnbound name t) :=
      ends.before (Store.Change.outcome _).keeps (Store.Change.outcome _).keeps
        (kept.trans (w'.store.keeps_withUnbound name t))
    exact echoes_raised (made.echoes_unbound (Store.size_le_of_le kept.le)) ends

/-- A call that is answered in the same way ends in the same way. -/
theorem echoes_callValue (hk : host.Keeps) {callee : Value} {args : List Value}
    (kept : base.Keeps w'.store)
    (called : callee.isCallable = true →
      Recurs final ((invoke host callee args).runOn w) ((invoke host callee args).runOn w'))
    (refused : callee.isCallable = false → w'.store.typeName callee = w.store.typeName callee) :
    (callValue host callee args).Echoes base final (callValue host callee args) w w' := by
  intro ends
  cases callable : callee.isCallable with
  | true =>
    have calls : Act.Composed host (invoke host callee args) := composed_invoke callee args
    have keeps' := calls.makes.keeps hk w'
    have recurs := called callable
    rw [runOn_callValue callable, runOn_callValue callable] at ends ⊢
    generalize (invoke host callee args).runOn w = q at recurs ends
    generalize (invoke host callee args).runOn w' = q' at recurs ends keeps'
    cases recurs with
    | ok => exact echoes_success _ ends
    | error there there' text alike =>
      exact echoes_guard _ _ (kept.trans keeps') there there' text alike ends
  | false =>
    rw [runOn_callValue_of_uncallable callable, runOn_callValue_of_uncallable callable,
      refused callable] at ends ⊢
    have kept' : base.Keeps (Attempt.withFailedCall (w'.store.withUncallable callee)
        ⟨w'.store.faults.size⟩ ("TypeError: " ++ uncallableText (w.store.typeName callee))) :=
      (kept.trans (w'.store.keeps_withUncallable callee)).trans
        (Attempt.keeps_withFailedCall _ _ _)
    have made := ends.before (Store.Change.outcome _).keeps (Store.Change.outcome _).keeps kept'
    exact echoes_raised (made.echoes_uncallable (refused callable) kept) ends

/-- A fault that is copied again gives a copy that resembles the first one. -/
theorem During.echoes_copy {s s' : Store} {x : FaultRef} (now : During base final s s')
    (there : s.Has (.fault x)) (args : ∃ items stamp, (s.fault x).args = .tuple items stamp)
    (during : During base final (s.addFault (s.fault x)).2 (s'.addFault (s'.fault x)).2) :
    (Value.fault ⟨s.faults.size⟩).Echoes base final (s.addFault (s.fault x)).2
      (s'.addFault (s'.fault x)).2 (.fault ⟨s'.faults.size⟩) := by
  have remains : s'.fault x = base.fault x := now.kept.fault (now.early.le.kind there).1
  have aged : (s.fault x).Ages (s'.fault x) := remains ▸ now.early.fault there
  have first : (s.addFault (s.fault x)).2.fault ⟨s.faults.size⟩ = s.fault x :=
    s.fault_addFault_self (s.fault x)
  have second : (s'.addFault (s'.fault x)).2.fault ⟨s'.faults.size⟩ = s'.fault x :=
    s'.fault_addFault_self (s'.fault x)
  have there₁ := s.has_addFault (s.fault x)
  have there₂ := s'.has_addFault (s'.fault x)
  have later : (s.fault x).Ages (final.fault ⟨s.faults.size⟩) :=
    first ▸ during.ages.fault there₁
  have later' : (s'.fault x).Ages (final.fault ⟨s'.faults.size⟩) :=
    second ▸ during.late.fault there₂
  refine .renewed ⟨there₁, now.fresh, there₂, ?_, fun untouched => ?_⟩
    ⟨2, final.interpreter.le_valueDepth (by decide), ?_⟩
  · rw [first, second, aged.kind_eq]
  · have other : x ≠ ⟨s.faults.size⟩ := fun same => by
      rw [same] at there
      exact Nat.lt_irrefl _ there
    have old := (Store.Change.fault (s.fault x)).le.kind there
    have placed := untouched x old.1 other
    rw [Store.fault_addFault_of_lt _ there] at placed
    rw [first, second, remains, placed]
  · obtain ⟨items, stamp, tuple⟩ := args
    refine Store.equivalent_of_parts 0 ?_ ?_ ?_ (later'.args_eq.trans (aged.args_eq.trans tuple))
    · rw [later.kind_eq, later'.kind_eq, aged.kind_eq]
    · rw [later.args_eq, later'.args_eq, aged.args_eq]
    · rw [later.cause?_eq, later'.cause?_eq, aged.cause?_eq]

/-- What a raising node raises again is the same again, if a way of its own to copy a fault is
answered in the same way. -/
theorem echoes_evalRaise {x : FaultRef} (now : During base final w.store w'.store)
    (there : w.store.Has (.fault x))
    (args : ∃ items stamp, (w.store.fault x).args = .tuple items stamp)
    (copied : ∀ way, w.store.ownWay? x = some way → w'.store.ownWay? x = some way →
      Recurs final ((invoke host way []).runOn w) ((invoke host way []).runOn w') ∧
      ∀ y w₁, (invoke host way []).runOn w = (.ok (.fault y), w₁) → w₁.store.Has (.fault y)) :
    (evalRaise host (.fault x)).Echoes base final (evalRaise host (.fault x)) w w' := by
  have remains : w'.store.fault x = base.fault x := now.kept.fault (now.early.le.kind there).1
  have aged : (w.store.fault x).Ages (w'.store.fault x) := remains ▸ now.early.fault there
  have same : w'.store.attribute? (.fault x) copyName = w.store.attribute? (.fault x) copyName := by
    rw [Store.attribute?_copyName, Store.attribute?_copyName, aged.extras_eq]
  intro ends
  rw [runOn_evalRaise, runOn_evalRaise, aged.kind_eq] at ends ⊢
  rw [Store.ownWay?, Store.ownWay?, aged.kind_eq, same] at copied
  cases locatable : (w.store.fault x).kind.isLocatable with
  | false =>
    simp only [locatable, Bool.false_eq_true, if_false] at ends ⊢
    exact echoes_raised (.same fun _ same => same ▸ there) ends
  | true =>
    simp only [locatable, if_true] at copied ends ⊢
    rw [Work.runOn_bind, Work.runOn_bind, runOn_copyOf, runOn_copyOf, same] at ends ⊢
    cases own : w.store.attribute? (.fault x) copyName with
    | none =>
      rw [own] at ends
      have kept := now.kept.trans (Store.Change.fault (w'.store.fault x)).keeps
      have made := ends.before (Store.Change.outcome _).keeps (Store.Change.outcome _).keeps kept
      exact echoes_raised (now.echoes_copy there args made) ends
    | some way =>
      obtain ⟨recurs, handed⟩ := copied way own own
      rw [own] at ends
      dsimp only at ends ⊢
      generalize (invoke host way []).runOn w = q at recurs handed ends
      generalize (invoke host way []).runOn w' = q' at recurs ends
      cases recurs with
      | ok => exact echoes_raised (.same fun y same => handed y _ (same ▸ rfl)) ends
      | error there there' text alike => exact .error (alike.mono (Nat.zero_le _))

end Acts

/-! ## Asking the host -/

/-- What a rule asks the host for: to call a value with arguments, to copy a fault in a way of its
own, or to tell the truth of a value. -/
inductive Ask
  | call (callee : Value) (args : List Value)
  | copy (way : Value)
  | test (v : Value)

/-- What a rule asks the host for once its operands have ended with some outcomes, under a debug
switch. -/
def Form.ask? (s : Store) (debug : Value) : Form → List Outcome → Option Ask
  | .call _ args, first :: more =>
    if args.tupleItems.length ≤ more.length ∧ (more.getLastD first).isRaised = false then
      some (.call first.value (more.map Outcome.value))
    else none
  | .fallback .onFault _ _, [o] => if o.isRaised then some (.test debug) else none
  | .fallback .onFalse _ _, [o] | .ternary _ _ _, [o] =>
    if o.isRaised then none else some (.test o.value)
  | .raise (.fault x), _ => (s.ownWay? x).map .copy
  | _, _ => none

/-- In two worlds the host answers in the same way. What cannot be called is not called, but its
type has the same name; and a fault that a way of its own to copy another one gives is there. -/
def Ask.Recurs (host : Host σ) (final : Store) (w w' : World σ) : Ask → Prop
  | .call callee args =>
    if callee.isCallable then
      Fallback.Recurs final ((invoke host callee args).runOn w) ((invoke host callee args).runOn w')
    else w'.store.typeName callee = w.store.typeName callee
  | .copy way =>
    Fallback.Recurs final ((invoke host way []).runOn w) ((invoke host way []).runOn w') ∧
      ∀ x w₁, (invoke host way []).runOn w = (.ok (.fault x), w₁) → w₁.store.Has (.fault x)
  | .test v => Fallback.Recurs final ((truthTest host v).runOn w) ((truthTest host v).runOn w')

/-! ## Rules -/

/-- The second move is the first again: the same operand is visited, or an outcome with the result
of the first again is kept or made. -/
inductive Move.Echoes (base final s s' : Store) : Move → Move → Prop
  | visit {i v} : Echoes base final s s' (.visit i v) (.visit i v)
  | keep {o o'} (outcomes : o.Echoes base final s s' o') :
      Echoes base final s s' (.keep o) (.keep o')
  | finish {o o'} (outcomes : o.Echoes base final s s' o') :
      Echoes base final s s' (.finish o) (.finish o')

/-- In two evaluations the rules make moves of which the second is the first again, or they break
off in the same way. -/
def Eval.Echoes (base final : Store) (x x' : Eval σ Move) (r r' : Run σ) : Prop :=
  During base final (x.runOn r).2.world.store (x'.runOn r').2.world.store →
    EndAgain final
      (Move.Echoes base final (x.runOn r).2.world.store (x'.runOn r').2.world.store)
      (x.runOn r).1 (x'.runOn r').1

/-- What is known of the outcomes of the operands in two evaluations: they agree one by one, and the
last one has the result of the first again. -/
structure OutcomesEcho (base final s s' : Store) (os os' : List Outcome) : Prop where
  agree : Forall₂ Outcome.Agrees os os'
  last {o o'} (first : os.getLast? = some o) (second : os'.getLast? = some o') :
    o.Echoes base final s s' o'

section Moves

variable {base final : Store} {r r' : Run σ}

theorem OutcomesEcho.getLastD {s s' : Store} {o o' : Outcome} {os os' : List Outcome}
    (all : OutcomesEcho base final s s' (o :: os) (o' :: os')) :
    (os.getLastD o).Echoes base final s s' (os'.getLastD o') := by
  have isLast (o : Outcome) (os : List Outcome) : (o :: os).getLast? = some (os.getLastD o) := by
    rw [List.getLast?_cons, List.getLastD_eq_getLast?]
  exact all.last (isLast o os) (isLast o' os')

theorem echoes_pure {m m' : Move} (h : m.Echoes base final r.world.store r'.world.store m') :
    (pure m : Eval σ Move).Echoes base final (pure m') r r' := fun _ => .ok h

theorem echoes_make {x x' : Act σ Outcome} (h : x.Echoes base final x' r.world r'.world) :
    (do return .finish (← Eval.ofAct x) : Eval σ Move).Echoes base final
      (do return .finish (← Eval.ofAct x')) r r' := by
  intro ends
  rw [runOn_make, runOn_make] at ends ⊢
  have both := h ends
  generalize x.runOn r.world = q at both
  generalize x'.runOn r'.world = q' at both
  obtain ⟨result, w⟩ := q
  obtain ⟨result', w'⟩ := q'
  cases both with
  | ok related => exact .ok (.finish related)
  | error alike => exact .error alike

/-- A rule that asks for a truth again makes the same move again. -/
theorem echoes_nextOnTruth (hk : host.Keeps) {v : Value} {onTrue onTrue' onFalse onFalse' : Move}
    (kept : base.Keeps r'.world.store)
    (answered : (Ask.test v).Recurs host final r.world r'.world)
    (whenTrue : ∀ {s s'}, r.world.store.Keeps s → r'.world.store.Keeps s' →
      onTrue.Echoes base final s s' onTrue')
    (whenFalse : ∀ {s s'}, r.world.store.Keeps s → r'.world.store.Keeps s' →
      onFalse.Echoes base final s s' onFalse') :
    (nextOnTruth host v onTrue onFalse).Echoes base final (nextOnTruth host v onTrue' onFalse')
      r r' := by
  have tests : Act.Composed host (truthTest host v) := composed_truthTest v
  have keeps := tests.makes.keeps hk r.world
  have keeps' := tests.makes.keeps hk r'.world
  intro ends
  have recurs : Recurs final ((truthTest host v).runOn r.world)
    ((truthTest host v).runOn r'.world) := answered
  generalize tested : (truthTest host v).runOn r.world = q at recurs keeps
  generalize tested' : (truthTest host v).runOn r'.world = q' at recurs keeps'
  cases recurs with
  | @ok b w w' =>
    have run : (nextOnTruth host v onTrue onFalse).runOn r =
        (.ok (if b then onTrue else onFalse), { r with world := w }) := by
      rw [nextOnTruth, Work.runOn_bind, Eval.runOn_ofAct, runOn_truthOrFailure, tested]
      rfl
    have run' : (nextOnTruth host v onTrue' onFalse').runOn r' =
        (.ok (if b then onTrue' else onFalse'), { r' with world := w' }) := by
      rw [nextOnTruth, Work.runOn_bind, Eval.runOn_ofAct, runOn_truthOrFailure, tested']
      rfl
    rw [run, run']
    cases b with
    | true => exact .ok (whenTrue keeps keeps')
    | false => exact .ok (whenFalse keeps keeps')
  | error there there' text alike =>
    rw [runOn_nextOnTruth_of_error tested, runOn_nextOnTruth_of_error tested'] at ends ⊢
    exact echoes_make (echoes_guard _ _ (kept.trans keeps') there there' text alike) ends

/-- A call decides the same again. -/
theorem echoes_nextOfCall (hk : host.Keeps) {callee args : Value} {os os' : List Outcome}
    (kept : base.Keeps r'.world.store)
    (all : OutcomesEcho base final r.world.store r'.world.store os os')
    (answered : ∀ a, (Form.call callee args).ask? r.world.store r.frame.debug os = some a →
      (Form.call callee args).ask? r'.world.store r'.frame.debug os' = some a →
      a.Recurs host final r.world r'.world) :
    (nextOfCall host callee args.tupleItems os).Echoes base final
      (nextOfCall host callee args.tupleItems os') r r' := by
  cases all.agree with
  | nil => exact echoes_pure .visit
  | @cons first first' more more' head tail =>
    have last := all.getLastD
    have length := tail.length_eq
    have raised := last.agrees.isRaised_eq
    cases last.agrees with
    | raised h h' =>
      simp only [nextOfCall, h, h']
      exact echoes_pure (.keep last)
    | @success v h h' =>
      simp only [nextOfCall, h, h', ← length]
      cases operand : args.tupleItems[more.length]? with
      | some w => exact echoes_pure .visit
      | none =>
        have complete := List.getElem?_eq_none_iff.1 operand
        have succeeded : (more.getLastD first).isRaised = false := by rw [Outcome.isRaised, h]
        have asked' : (Form.call callee args).ask? r'.world.store r'.frame.debug
            (first' :: more') = some (.call first'.value (more'.map Outcome.value)) :=
          if_pos ⟨length ▸ complete, raised.trans succeeded⟩
        rw [head.value_eq, Outcome.Agrees.map_value_eq tail] at asked' ⊢
        have answer := answered _ (if_pos ⟨complete, succeeded⟩) asked'
        refine echoes_make (echoes_callValue hk kept (fun callable => ?_) fun callable => ?_)
        · simpa only [Ask.Recurs, callable, if_true] using answer
        · simpa only [Ask.Recurs, callable, Bool.false_eq_true, if_false] using answer

/-- A debug record that is written again is followed by the same move again. -/
theorem echoes_debug {record record' : Frame → LogRecord} {i : Nat} {v : Value}
    (frame : r'.frame = r.frame)
    (answered : (Ask.test r.frame.debug).Recurs host final r.world r'.world) :
    (do debug host record; return .visit i v : Eval σ Move).Echoes base final
      (do debug host record'; return .visit i v) r r' := by
  intro _
  have recurs : Recurs final ((truthTest host r.frame.debug).runOn r.world)
    ((truthTest host r.frame.debug).runOn r'.world) := answered
  rw [Work.runOn_bind, Work.runOn_bind, runOn_debug, runOn_debug, frame]
  generalize (truthTest host r.frame.debug).runOn r.world = q at recurs
  generalize (truthTest host r.frame.debug).runOn r'.world = q' at recurs
  cases recurs with
  | ok => exact .ok .visit
  | error there there' text alike => exact .error (alike.mono (Nat.zero_le _))

/-- An operator decides the same again. -/
theorem echoes_nextOfFallback (hk : host.Keeps) {op : Operator} {lhs rhs : Value}
    {os os' : List Outcome} (kept : base.Keeps r'.world.store) (frame : r'.frame = r.frame)
    (all : OutcomesEcho base final r.world.store r'.world.store os os')
    (answered : ∀ a, (Form.fallback op lhs rhs).ask? r.world.store r.frame.debug os = some a →
      (Form.fallback op lhs rhs).ask? r'.world.store r'.frame.debug os' = some a →
      a.Recurs host final r.world r'.world) :
    (nextOfFallback host op lhs rhs os).Echoes base final (nextOfFallback host op lhs rhs os')
      r r' := by
  cases all.agree with
  | nil => exact echoes_pure .visit
  | @cons o o' more more' head tail =>
    cases tail with
    | @cons second second' more more' _ tail =>
      have last := all.getLastD
      rw [List.getLastD_cons, List.getLastD_cons] at last
      exact echoes_pure (.keep last)
    | nil =>
      have last : o.Echoes base final r.world.store r'.world.store o' := all.last rfl rfl
      obtain ⟨self, result⟩ := o
      obtain ⟨self', result'⟩ := o'
      cases head with
      | @success v h h' =>
        cases h
        cases h'
        cases op with
        | onFault => exact echoes_pure (.keep last)
        | onNull =>
          simp only [nextOfFallback]
          cases v.isNull with
          | true => exact echoes_pure .visit
          | false => exact echoes_pure (.keep last)
        | onFalse =>
          exact echoes_nextOnTruth hk kept (answered _ rfl rfl)
            (fun keeps keeps' => .keep (last.mono keeps keeps')) fun _ _ => .visit
      | @raised _ e' h h' =>
        cases h
        cases h'
        cases op with
        | onFault =>
          have asked : (Form.fallback .onFault lhs rhs).ask? r'.world.store r'.frame.debug
              [⟨self', .raised e'⟩] = some (.test r.frame.debug) := frame ▸ rfl
          exact echoes_debug frame (answered _ rfl asked)
        | onNull | onFalse => exact echoes_pure (.keep last)

/-- A choice decides the same again. -/
theorem echoes_nextOfTernary (hk : host.Keeps) {condition thenBranch elseBranch : Value}
    {os os' : List Outcome} (kept : base.Keeps r'.world.store)
    (all : OutcomesEcho base final r.world.store r'.world.store os os')
    (answered : ∀ a,
      (Form.ternary condition thenBranch elseBranch).ask? r.world.store r.frame.debug os = some a →
      (Form.ternary condition thenBranch elseBranch).ask? r'.world.store r'.frame.debug os' =
        some a →
      a.Recurs host final r.world r'.world) :
    (nextOfTernary host condition thenBranch elseBranch os).Echoes base final
      (nextOfTernary host condition thenBranch elseBranch os') r r' := by
  cases all.agree with
  | nil => exact echoes_pure .visit
  | @cons o o' more more' head tail =>
    cases tail with
    | @cons second second' more more' _ tail =>
      have last := all.getLastD
      rw [List.getLastD_cons, List.getLastD_cons] at last
      exact echoes_pure (.keep last)
    | nil =>
      have last : o.Echoes base final r.world.store r'.world.store o' := all.last rfl rfl
      obtain ⟨self, result⟩ := o
      obtain ⟨self', result'⟩ := o'
      cases head with
      | success h h' =>
        cases h
        cases h'
        exact echoes_nextOnTruth hk kept (answered _ rfl rfl) (fun _ _ => .visit) fun _ _ => .visit
      | raised h h' =>
        cases h
        cases h'
        exact echoes_pure (.keep last)

/-- A rule decides the same again if the host answers in the same way what it is asked. -/
theorem Form.echoes_next (hk : host.Keeps) {f : Form} {os os' : List Outcome}
    (now : During base final r.world.store r'.world.store) (frame : r'.frame = r.frame)
    (fit : f.IsFit r.world.store)
    (held : ∀ x, f = .raise (.fault x) →
      ∃ items stamp, (r.world.store.fault x).args = .tuple items stamp)
    (all : OutcomesEcho base final r.world.store r'.world.store os os')
    (answered : ∀ a, f.ask? r.world.store r.frame.debug os = some a →
      f.ask? r'.world.store r'.frame.debug os' = some a → a.Recurs host final r.world r'.world) :
    (f.next host os).Echoes base final (f.next host os') r r' := by
  cases f with
  | literal v => exact echoes_make (echoes_success v)
  | reference name =>
    obtain ⟨⟨t, named, -⟩, there⟩ := fit
    have named' := Store.text?_of_le (le_trans now.early.le now.kept.le) there named
    show (do return Move.finish (← Eval.ofAct (lookup r.frame.vars name)) : Eval σ Move).Echoes
      base final (do return Move.finish (← Eval.ofAct (lookup r'.frame.vars name))) r r'
    rw [frame]
    exact echoes_make (echoes_lookup now.kept named named')
  | call callee args => exact echoes_nextOfCall hk now.kept all answered
  | fallback op lhs rhs => exact echoes_nextOfFallback hk now.kept frame all answered
  | ternary condition thenBranch elseBranch =>
    exact echoes_nextOfTernary hk now.kept all answered
  | raise exception =>
    obtain ⟨x, rfl, there, -⟩ := fit
    refine echoes_make (echoes_evalRaise now there (held x rfl) fun way own own' => ?_)
    exact answered (.copy way) (congrArg (Option.map Ask.copy) own)
      (congrArg (Option.map Ask.copy) own')

end Moves

end Fallback
