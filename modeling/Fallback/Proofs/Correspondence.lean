import Fallback.Proofs.Itinerary
import Fallback.Proofs.Lockstep

/-!
Values that are treated alike.

A correspondence relates values with values, the worlds of one evaluation with those of another, and
nodes with nodes. `Correspondence.Admits` says what a host must grant it: related values agree on
being null, on being callable and on their truth test, and related callables on what an invocation
ends with. The relation of the worlds is whatever is needed to say so, and it does not see what an
evaluation does by itself.

`Correspondence.Forms` relates two forms of the same shape whose literals are related. Nothing else
is looked at, so the rules of two such forms make the same moves (`evals_next`) and the same
invocations (`rel_invocation?`), whatever the values are.
-/
namespace Fallback

open List (Forall₂)
open Relation (ReflTransGen TransGen)

variable {σ α β : Type} {host : Host σ}

/-! ## Correspondences -/

/-- What belongs together in two evaluations: values, the worlds at the same moment, and nodes. -/
structure Correspondence (σ : Type) where
  values : Value → Value → Prop
  worlds : World σ → World σ → Prop
  nodes : NodeRef → NodeRef → Prop

/-- What an evaluation does to the world by itself: it gives out a stamp, it makes a fault or an
outcome, it attaches a place, and it observes. -/
inductive World.Own (w : World σ) : World σ → Prop
  | stamp : w.Own { w with store := w.store.addStamp.2 }
  | fault (e : Fault) : w.Own { w with store := (w.store.addFault e).2 }
  | outcome (r : Result) : w.Own { w with store := (w.store.addOutcome r).2 }
  | place (v : Value) (o : Outcome) : w.Own { w with store := w.store.attachPlace v o }
  | trace (trace : Trace) : w.Own { w with trace }
  | log (log : Array LogRecord) : w.Own { w with log }

/-- A guard makes a failed call of the fault: it does not let the fault through, and the fault can
be shown in a message. -/
def Store.CanFail (s : Store) (letsThrough : FaultKind → Bool) (c : FaultRef) : Prop :=
  letsThrough (s.fault c).kind = false ∧ ∃ named, s.namedText (.fault c) = .ok named

namespace Correspondence

/-- Both end with results that are related, in worlds that are related, or both end with faults. -/
inductive Ends (C : Correspondence σ) (R : α → β → Prop) : Ending σ α → Ending σ β → Prop
  | ok {a b w w'} (related : R a b) (worlds : C.worlds w w') : C.Ends R (.ok a, w) (.ok b, w')
  | error {e f w w'} : C.Ends R (.error e, w) (.error f, w')

/-- Both turns of the host end with results that are related, or with faults of which a guard makes
failed calls, or with faults that get past the guard. -/
inductive Turns (C : Correspondence σ) (letsThrough : FaultKind → Bool) (R : α → β → Prop) :
    Ending σ α → Ending σ β → Prop
  | ok {a b w w'} (related : R a b) (worlds : C.worlds w w') :
    C.Turns letsThrough R (.ok a, w) (.ok b, w')
  | fails {c d w w'} (first : w.store.CanFail letsThrough c)
    (second : w'.store.CanFail letsThrough d) (worlds : C.worlds w w') :
    C.Turns letsThrough R (.error c, w) (.error d, w')
  | aborts {c d w w'} (first : ¬w.store.CanFail letsThrough c)
    (second : ¬w'.store.CanFail letsThrough d) : C.Turns letsThrough R (.error c, w) (.error d, w')

/-- The host treats related values alike, in related worlds; and what an evaluation does by itself
to one of two related worlds leaves them related. -/
structure Admits (C : Correspondence σ) (host : Host σ) : Prop where
  isNull {v v' : Value} (values : C.values v v') : v.isNull = v'.isNull
  isCallable {v v' : Value} (values : C.values v v') : v.isCallable = v'.isCallable
  test {v v' : Value} {w w' : World σ} (values : C.values v v') (worlds : C.worlds w w') :
    C.Turns (fun k => !k.isOrdinary) Eq ((truthTest host v).runOn w) ((truthTest host v').runOn w')
  call {v v' : Value} {args args' : List Value} {w w' : World σ} (values : C.values v v')
    (callable : v.isCallable = true) (all : Forall₂ C.values args args')
    (worlds : C.worlds w w') : C.Turns FaultKind.escapesCall C.values
      ((invoke host v args).runOn w) ((invoke host v' args').runOn w')
  first {w₀ w w' : World σ} (worlds : C.worlds w₀ w') (own : w₀.Own w) : C.worlds w w'
  second {w w₀ w' : World σ} (worlds : C.worlds w w₀) (own : w₀.Own w') : C.worlds w w'

/-- The truth of the debug switch can be told in both of two related worlds or in none. -/
def Switches (C : Correspondence σ) (host : Host σ) (debug : Value) : Prop :=
  ∀ ⦃w w' : World σ⦄, C.worlds w w' →
    C.Ends (fun _ _ => True) ((truthTest host debug).runOn w) ((truthTest host debug).runOn w')

/-- A switch whose truth can always be told is one. -/
theorem switches_of_answers (C : Correspondence σ) {debug : Value} (h : host.Answers debug) :
    C.Switches host debug := by
  intro w w' worlds
  obtain ⟨b, told⟩ := h w
  obtain ⟨b', told'⟩ := h w'
  rw [told, told']
  exact .ok trivial worlds

/-- The outcomes are successes with related values, or both raise something. -/
inductive Outcomes (C : Correspondence σ) (o o' : Outcome) : Prop
  | success {v v' : Value} (first : o.result = .success v) (second : o'.result = .success v')
    (values : C.values v v')
  | raised {e e' : Value} (first : o.result = .raised e) (second : o'.result = .raised e')

/-- The rules make the same move: they visit operands that are related, or they end with outcomes
that are. -/
inductive Moves (C : Correspondence σ) : Move → Move → Prop
  | visit {v v' : Value} (slot : Nat) (operands : v.Twin C.nodes v') :
    C.Moves (.visit slot v) (.visit slot v')
  | keep {o o' : Outcome} (outcomes : C.Outcomes o o') : C.Moves (.keep o) (.keep o')
  | finish {o o' : Outcome} (outcomes : C.Outcomes o o') : C.Moves (.finish o) (.finish o')

/-- The frames have the same names bound to related values, and the same limit and switch, and as
many nodes are open. -/
structure Frames (C : Correspondence σ) (f g : Frame) : Prop where
  vars (name : String) : Option.Rel C.values (f.vars.get? name) (g.vars.get? name)
  maxDepth : f.maxDepth = g.maxDepth
  debug : f.debug = g.debug
  depth : f.depth = g.depth

/-- The forms have the same shape: related literals, the same name in references, related operands,
and raising nodes in the same places. Where the fault that a raising node holds has a way of its own
to be copied, that way is a literal, too. -/
inductive Forms (C : Correspondence σ) (s t : Store) : Form → Form → Prop
  | literal {v v' : Value} (values : C.values v v') : C.Forms s t (.literal v) (.literal v')
  | reference {name name' : Value} {text : String} (first : s.text? name = some text)
    (second : t.text? name' = some text) : C.Forms s t (.reference name) (.reference name')
  | call {v v' : Value} {args args' : List Value} {stamp stamp' : Nat} (callees : v.Twin C.nodes v')
    (all : Forall₂ (Value.Twin C.nodes) args args') :
    C.Forms s t (.call v (.tuple args stamp)) (.call v' (.tuple args' stamp'))
  | fallback {lhs lhs' rhs rhs' : Value} (op : Operator) (lefts : lhs.Twin C.nodes lhs')
    (rights : rhs.Twin C.nodes rhs') :
    C.Forms s t (.fallback op lhs rhs) (.fallback op lhs' rhs')
  | ternary {c c' a a' b b' : Value} (conditions : c.Twin C.nodes c')
    (thenBranches : a.Twin C.nodes a') (elseBranches : b.Twin C.nodes b') :
    C.Forms s t (.ternary c a b) (.ternary c' a' b')
  | raise {x y : FaultRef} (ways : ∀ ⦃w w'⦄, C.worlds w w' →
      Option.Rel C.values (w.store.ownWay? x) (w'.store.ownWay? y)) :
    C.Forms s t (.raise (.fault x)) (.raise (.fault y))

variable {C : Correspondence σ}

theorem Outcomes.isRaised {o o' : Outcome} (h : C.Outcomes o o') : o.isRaised = o'.isRaised := by
  cases h with
  | success first second => rw [Outcome.isRaised, Outcome.isRaised, first, second]
  | raised first second => rw [Outcome.isRaised, Outcome.isRaised, first, second]

theorem Outcomes.values {o o' : Outcome} (h : C.Outcomes o o') (succeeded : o.isRaised = false) :
    C.values o.value o'.value := by
  cases h with
  | success first second values =>
    rw [Outcome.value, Outcome.value, first, second]
    exact values
  | raised first second =>
    rw [Outcome.isRaised, first] at succeeded
    cases succeeded

theorem Outcomes.allValues {os os' : List Outcome} (all : Forall₂ C.Outcomes os os')
    (succeeded : ∀ o ∈ os, o.isRaised = false) :
    Forall₂ C.values (os.map Outcome.value) (os'.map Outcome.value) := by
  induction all with
  | nil => exact .nil
  | cons outcomes _ ih =>
    obtain ⟨first, rest⟩ := List.forall_mem_cons.1 succeeded
    exact .cons (outcomes.values first) (ih rest)

theorem Outcomes.getLastD {o o' : Outcome} {os os' : List Outcome} (first : C.Outcomes o o')
    (all : Forall₂ C.Outcomes os os') : C.Outcomes (os.getLastD o) (os'.getLastD o') := by
  induction all generalizing o o' with
  | nil => exact first
  | cons outcomes _ ih =>
    rw [List.getLastD_cons, List.getLastD_cons]
    exact ih outcomes

/-- Forms of the same shape have the same shape later. -/
theorem Forms.mono {s s' t t' : Store} {f g : Form} (h : C.Forms s t f g) (le : s ≤ s')
    (le' : t ≤ t') (fit : f.IsFit s) (fit' : g.IsFit t) : C.Forms s' t' f g := by
  cases h with
  | literal values => exact .literal values
  | reference first second =>
    exact .reference (Store.text?_of_le le fit.2 first) (Store.text?_of_le le' fit'.2 second)
  | call callees all => exact .call callees all
  | fallback op lefts rights => exact .fallback op lefts rights
  | ternary conditions thenBranches elseBranches =>
    exact .ternary conditions thenBranches elseBranches
  | raise ways => exact .raise ways

/-! ## Putting work together -/

/-- The two works end alike in related worlds. -/
def Acts (C : Correspondence σ) (R : α → β → Prop) (x : Act σ α) (y : Act σ β) : Prop :=
  ∀ ⦃w w' : World σ⦄, C.worlds w w' → C.Ends R (x.runOn w) (y.runOn w')

theorem acts_pure {R : α → β → Prop} {a : α} {b : β} (related : R a b) :
    C.Acts R (pure a : Act σ α) (pure b) :=
  fun _ _ worlds => .ok related worlds

theorem Ends.bind {γ δ : Type} {R : α → β → Prop} {S : γ → δ → Prop} {x : Act σ α} {y : Act σ β}
    {f : α → Act σ γ} {g : β → Act σ δ} {w w' : World σ} (h : C.Ends R (x.runOn w) (y.runOn w'))
    (rest : ∀ {a b}, R a b → C.Acts S (f a) (g b)) :
    C.Ends S ((x >>= f).runOn w) ((y >>= g).runOn w') := by
  rw [Work.runOn_bind, Work.runOn_bind]
  generalize x.runOn w = p at h
  generalize y.runOn w' = q at h
  cases h with
  | ok related worlds => exact rest related worlds
  | error => exact .error

/-- Within an evaluation the two works end alike, from one state each. -/
def Evals (C : Correspondence σ) (R : α → β → Prop) (x : Eval σ α) (y : Eval σ β)
    (r r' : Run σ) : Prop :=
  C.Ends R ((x.runOn r).1, (x.runOn r).2.world) ((y.runOn r').1, (y.runOn r').2.world)

variable {r r' : Run σ}

theorem Acts.evals {R : α → β → Prop} {x : Act σ α} {y : Act σ β} (h : C.Acts R x y)
    (worlds : C.worlds r.world r'.world) : C.Evals R (Eval.ofAct x) (Eval.ofAct y) r r' :=
  h worlds

theorem evals_pure {R : α → β → Prop} {a : α} {b : β} (related : R a b)
    (worlds : C.worlds r.world r'.world) :
    C.Evals R (pure a : Eval σ α) (pure b) r r' :=
  .ok related worlds

theorem Evals.bind {γ δ : Type} {R : α → β → Prop} {S : γ → δ → Prop} {x : Eval σ α}
    {y : Eval σ β} {f : α → Eval σ γ} {g : β → Eval σ δ} (h : C.Evals R x y r r')
    (rest : ∀ {a b r₁ r₁'}, R a b → C.worlds r₁.world r₁'.world → C.Evals S (f a) (g b) r₁ r₁') :
    C.Evals S (x >>= f) (y >>= g) r r' := by
  rw [Evals] at h ⊢
  rw [Work.runOn_bind, Work.runOn_bind]
  generalize x.runOn r = p at h ⊢
  generalize y.runOn r' = q at h ⊢
  obtain ⟨result, r₁⟩ := p
  obtain ⟨result', r₁'⟩ := q
  cases h with
  | ok related worlds => exact rest related worlds
  | error => exact .error

/-- A rule that makes an outcome of its own finishes with it. -/
theorem Acts.finish {x y : Act σ Outcome} (h : C.Acts C.Outcomes x y)
    (worlds : C.worlds r.world r'.world) :
    C.Evals C.Moves (do return .finish (← Eval.ofAct x) : Eval σ Move)
      (do return .finish (← Eval.ofAct y)) r r' :=
  (h.evals worlds).bind fun outcomes worlds => evals_pure (.finish outcomes) worlds

end Correspondence

/-! ## What evaluation does by itself -/

theorem World.own_withFailedCall (w : World σ) (c : FaultRef) (message : String) :
    ReflTransGen World.Own w { w with store := Attempt.withFailedCall w.store c message } :=
  ((ReflTransGen.single .stamp).tail .stamp).tail (.fault _)

/-- A guard makes a failed call of a fault where it can, and is broken off otherwise. -/
theorem runOn_guardFault_of_canFail {letsThrough : FaultKind → Bool} (message : String → String)
    {c : FaultRef} {w : World σ} (h : w.store.CanFail letsThrough c) :
    ∃ x w', (guardFault letsThrough message c).runOn w = (.ok x, w') ∧
      ReflTransGen World.Own w w' := by
  obtain ⟨stopped, named, shown⟩ := h
  refine ⟨⟨w.store.faults.size⟩, _, ?_, w.own_withFailedCall c (message named)⟩
  simp [guardFault, stopped, shown]

theorem runOn_guardFault_of_not_canFail {letsThrough : FaultKind → Bool}
    (message : String → String) {c : FaultRef} {w : World σ}
    (h : ¬w.store.CanFail letsThrough c) :
    ∃ e w', (guardFault letsThrough message c).runOn w = (.error e, w') := by
  rw [guardFault, Work.runOn_ofRun]
  cases stopped : letsThrough (w.store.fault c).kind with
  | true => exact ⟨c, w, by simp⟩
  | false =>
    rcases shown : w.store.namedText (.fault c) with m | named
    · exact ⟨_, _, rfl⟩
    · exact absurd ⟨stopped, named, shown⟩ h

theorem World.own_withUnbound (w : World σ) (name : Value) (text : String) :
    ReflTransGen World.Own w { w with store := w.store.withUnbound name text } :=
  ((ReflTransGen.single .stamp).tail .stamp).tail (.fault _)

/-- What cannot be called is raised as a failed call. -/
theorem runOn_callValue_own {callee : Value} (callable : callee.isCallable = false)
    (args : List Value) (w : World σ) :
    ∃ e w₁, ReflTransGen World.Own w w₁ ∧
      (callValue host callee args).runOn w = (Act.raised e).runOn w₁ := by
  obtain ⟨c, s, named, ⟨e, rfl⟩, made⟩ := runOn_callValue_of_not_callable callable args w
  have own : ReflTransGen World.Own w
      { w with store := (w.store.addStamp.2.addStamp.2.addFault e).2 } :=
    ((ReflTransGen.single .stamp).tail .stamp).tail (.fault e)
  exact ⟨_, _, own.trans (World.own_withFailedCall _ c named), made⟩

/-- Without a way of its own a fault is raised itself, or a copy of it is. -/
theorem runOn_evalRaise_own (host : Host σ) {x : FaultRef} {w : World σ}
    (none : w.store.ownWay? x = none) :
    ∃ e w₁, ReflTransGen World.Own w w₁ ∧
      (evalRaise host (.fault x)).runOn w = (Act.raised e).runOn w₁ := by
  rw [Store.ownWay?] at none
  rw [runOn_evalRaise]
  cases locatable : (w.store.fault x).kind.isLocatable with
  | false => exact ⟨_, w, .refl, rfl⟩
  | true =>
    rw [locatable, if_pos rfl] at none
    refine ⟨.fault ⟨w.store.faults.size⟩, _, .single (.fault (w.store.fault x)), ?_⟩
    rw [if_pos rfl, Work.runOn_bind, runOn_copyOf, none]

/-- A way of its own is invoked to copy a fault, and what it gives is raised. -/
theorem runOn_evalRaise_of_ownWay (host : Host σ) {x : FaultRef} {w : World σ} {way : Value}
    (own : w.store.ownWay? x = some way) :
    (evalRaise host (.fault x)).runOn w =
      (do Act.raised (← invoke host way []) : Act σ Outcome).runOn w := by
  rw [Store.ownWay?] at own
  split at own
  · next locatable =>
    rw [runOn_evalRaise, if_pos locatable, Work.runOn_bind, Work.runOn_bind, runOn_copyOf, own]
  · cases own

/-- The invocation of what cannot be called is broken off. -/
theorem runOn_invoke_of_not_callable (host : Host σ) {callee : Value}
    (callable : callee.isCallable = false) (args : List Value) (w : World σ) :
    ∃ e w', (invoke host callee args).runOn w = (.error e, w') := by
  rw [invoke, Work.runOn_bind_ok (Act.runOn_store w)]
  cases callee with
  | callable f | routine f => cases callable
  | _ => exact ⟨_, _, rfl⟩

namespace Correspondence

variable {C : Correspondence σ}

theorem Admits.firsts (admits : C.Admits host) {w₀ w w' : World σ} (worlds : C.worlds w₀ w')
    (own : ReflTransGen World.Own w₀ w) : C.worlds w w' := by
  induction own with
  | refl => exact worlds
  | tail _ step ih => exact admits.first ih step

theorem Admits.seconds (admits : C.Admits host) {w w₀ w' : World σ} (worlds : C.worlds w w₀)
    (own : ReflTransGen World.Own w₀ w') : C.worlds w w' := by
  induction own with
  | refl => exact worlds
  | tail _ step ih => exact admits.second ih step

section Acts

variable (admits : C.Admits host)
include admits

theorem acts_success {v v' : Value} (values : C.values v v') :
    C.Acts C.Outcomes (Act.success v) (Act.success v') := by
  intro w w' worlds
  rw [Act.runOn_success, Act.runOn_success]
  exact .ok (.success rfl rfl values)
    (admits.second (admits.first worlds (.outcome _)) (.outcome _))

theorem acts_raised (e e' : Value) : C.Acts C.Outcomes (Act.raised e) (Act.raised e') := by
  intro w w' worlds
  rw [Act.runOn_raised, Act.runOn_raised]
  exact .ok (.raised rfl rfl) (admits.second (admits.first worlds (.outcome _)) (.outcome _))

/-- The guards around turns that belong together make failed calls of both faults or of none. -/
theorem Turns.guard {letsThrough : FaultKind → Bool} {R : α → β → Prop} {c d : FaultRef}
    {w w' : World σ} (turns : C.Turns letsThrough R (.error c, w) (.error d, w'))
    (message : String → String) :
    C.Ends (fun _ _ => True) ((guardFault letsThrough message c).runOn w)
      ((guardFault letsThrough message d).runOn w') := by
  cases turns with
  | fails first second worlds =>
    obtain ⟨x, w₁, made, own⟩ := runOn_guardFault_of_canFail message first
    obtain ⟨y, w₁', made', own'⟩ := runOn_guardFault_of_canFail message second
    rw [made, made']
    exact .ok trivial (admits.seconds (admits.firsts worlds own) own')
  | aborts first second =>
    obtain ⟨e, w₁, broken⟩ := runOn_guardFault_of_not_canFail message first
    obtain ⟨e', w₁', broken'⟩ := runOn_guardFault_of_not_canFail message second
    rw [broken, broken']
    exact .error

/-- Both truth tests have the same answer, or both become failed calls. -/
theorem acts_truthOrFailure {v v' : Value} (values : C.values v v') :
    C.Acts (fun t t' => t = t' ∨ ∃ e e', t = .error e ∧ t' = .error e') (truthOrFailure host v)
      (truthOrFailure host v') := by
  intro w w' worlds
  have turns := admits.test values worlds
  rw [runOn_truthOrFailure, runOn_truthOrFailure]
  generalize (truthTest host v).runOn w = p at turns ⊢
  generalize (truthTest host v').runOn w' = q at turns ⊢
  rcases p with ⟨c | b, w₁⟩ <;> rcases q with ⟨d | b', w₁'⟩
  · exact Ends.bind (turns.guard admits _) fun _ => acts_pure (.inr ⟨_, _, rfl, rfl⟩)
  · cases turns
  · cases turns
  · cases turns with
    | ok same worlds => exact .ok (.inl (congrArg Except.ok same)) worlds

/-- Both calls succeed with related values, or both become failed calls. -/
theorem acts_callValue {v v' : Value} {args args' : List Value} (values : C.values v v')
    (all : Forall₂ C.values args args') :
    C.Acts C.Outcomes (callValue host v args) (callValue host v' args') := by
  intro w w' worlds
  have same := admits.isCallable values
  cases callable : v.isCallable with
  | true =>
    have turns := admits.call values callable all worlds
    rw [runOn_callValue callable, runOn_callValue (same ▸ callable)]
    generalize (invoke host v args).runOn w = p at turns ⊢
    generalize (invoke host v' args').runOn w' = q at turns ⊢
    rcases p with ⟨c | u, w₁⟩ <;> rcases q with ⟨d | u', w₁'⟩
    · exact Ends.bind (turns.guard admits _) fun _ => acts_raised admits _ _
    · cases turns
    · cases turns
    · cases turns with
      | ok values worlds => exact acts_success admits values worlds
  | false =>
    obtain ⟨e, w₁, own, made⟩ := runOn_callValue_own callable args w
    obtain ⟨e', w₁', own', made'⟩ := runOn_callValue_own (same ▸ callable) args' w'
    rw [made, made']
    exact acts_raised admits e e' (admits.seconds (admits.firsts worlds own) own')

/-- The same name is bound to related values, or it is not bound. -/
theorem acts_lookup {vars vars' : Environment} {name name' : Value} {text : String}
    (bound : Option.Rel C.values (vars.get? text) (vars'.get? text)) {w w' : World σ}
    (named : w.store.text? name = some text) (named' : w'.store.text? name' = some text)
    (worlds : C.worlds w w') :
    C.Ends C.Outcomes ((lookup vars name).runOn w) ((lookup vars' name').runOn w') := by
  rw [runOn_lookup named, runOn_lookup named']
  generalize vars.get? text = u at bound
  generalize vars'.get? text = u' at bound
  cases bound with
  | some values => exact acts_success admits values worlds
  | none =>
    have first := w.own_withUnbound name text
    have second := w'.own_withUnbound name' text
    exact acts_raised admits _ _ (admits.seconds (admits.firsts worlds first) second)

/-- Raising nodes raise something, unless the ways to copy what they hold are broken off. -/
theorem acts_evalRaise {x y : FaultRef} (ways : ∀ ⦃w w'⦄, C.worlds w w' →
      Option.Rel C.values (w.store.ownWay? x) (w'.store.ownWay? y)) :
    C.Acts C.Outcomes (evalRaise host (.fault x)) (evalRaise host (.fault y)) := by
  intro w w' worlds
  have related := ways worlds
  rcases own : w.store.ownWay? x with _ | way <;> rcases own' : w'.store.ownWay? y with _ | way' <;>
    rw [own, own'] at related
  · obtain ⟨e, w₁, changed, made⟩ := runOn_evalRaise_own host own
    obtain ⟨e', w₁', changed', made'⟩ := runOn_evalRaise_own host own'
    rw [made, made']
    exact acts_raised admits e e' (admits.seconds (admits.firsts worlds changed) changed')
  · cases related
  · cases related
  · cases related with
    | some values =>
      rw [runOn_evalRaise_of_ownWay host own, runOn_evalRaise_of_ownWay host own']
      refine Ends.bind (R := fun _ _ => True) ?_ fun _ => acts_raised admits _ _
      cases callable : way.isCallable with
      | true =>
        have turns := admits.call values callable .nil worlds
        generalize (invoke host way []).runOn w = p at turns ⊢
        generalize (invoke host way' []).runOn w' = q at turns ⊢
        rcases p with ⟨c | u, w₁⟩ <;> rcases q with ⟨d | u', w₁'⟩
        · exact .error
        · cases turns
        · cases turns
        · cases turns with
          | ok values worlds => exact .ok trivial worlds
      | false =>
        obtain ⟨e, w₁, broken⟩ := runOn_invoke_of_not_callable host callable [] w
        obtain ⟨e', w₁', broken'⟩ :=
          runOn_invoke_of_not_callable host (admits.isCallable values ▸ callable) [] w'
        rw [broken, broken']
        exact .error

end Acts

/-! ## Decisions -/

section Decisions

variable {r r' : Run σ} {os os' : List Outcome} {f g : Form}

/-- A debug record is written on both sides, or both are broken off. -/
theorem evals_debug (admits : C.Admits host) (switch : C.Switches host r.frame.debug)
    (frames : r.frame.debug = r'.frame.debug) (worlds : C.worlds r.world r'.world)
    (record record' : Frame → LogRecord) :
    C.Evals (fun _ _ => True) (debug host record) (debug host record') r r' := by
  have told := switch worlds
  rw [Evals, runOn_debug, runOn_debug, ← frames]
  generalize (truthTest host r.frame.debug).runOn r.world = p at told ⊢
  generalize (truthTest host r.frame.debug).runOn r'.world = q at told ⊢
  have written (b : Bool) (w : World σ) (record : LogRecord) :
      ReflTransGen World.Own w (if b then { w with log := w.log.push record } else w) := by
    cases b with
    | true => exact .single (.log _)
    | false => exact .refl
  cases told with
  | ok _ worlds =>
    exact .ok trivial (admits.seconds (admits.firsts worlds (written _ _ _)) (written _ _ _))
  | error => exact .error

theorem evals_nextOnTruth (admits : C.Admits host) {v v' : Value} (values : C.values v v')
    {onTrue onTrue' onFalse onFalse' : Move} (ifTrue : C.Moves onTrue onTrue')
    (ifFalse : C.Moves onFalse onFalse') (worlds : C.worlds r.world r'.world) :
    C.Evals C.Moves (nextOnTruth host v onTrue onFalse) (nextOnTruth host v' onTrue' onFalse')
      r r' := by
  refine ((acts_truthOrFailure admits values).evals worlds).bind
    fun {t t' r₁ r₁'} same worlds => ?_
  obtain rfl | ⟨e, e', rfl, rfl⟩ := same
  · cases t with
    | error e => exact (acts_raised admits _ _).finish worlds
    | ok b =>
      cases b with
      | true => exact evals_pure ifTrue worlds
      | false => exact evals_pure ifFalse worlds
  · exact (acts_raised admits _ _).finish worlds

theorem evals_nextOfFallback (admits : C.Admits host) (switch : C.Switches host r.frame.debug)
    (frames : r.frame.debug = r'.frame.debug) (worlds : C.worlds r.world r'.world)
    (op : Operator) {lhs lhs' rhs rhs' : Value} (lefts : lhs.Twin C.nodes lhs')
    (rights : rhs.Twin C.nodes rhs') (all : Forall₂ C.Outcomes os os') :
    C.Evals C.Moves (nextOfFallback host op lhs rhs os) (nextOfFallback host op lhs' rhs' os')
      r r' := by
  rcases all with - | ⟨first, - | ⟨second, more⟩⟩
  · exact evals_pure (.visit 0 lefts) worlds
  · obtain ⟨success, success', values⟩ | ⟨raised, raised'⟩ := first
    · have kept := Outcomes.success success success' values
      cases op with
      | onFault =>
        simp only [nextOfFallback, success, success']
        exact evals_pure (.keep kept) worlds
      | onNull =>
        simp only [nextOfFallback, success, success', admits.isNull values]
        refine evals_pure ?_ worlds
        split
        · exact .visit 1 rights
        · exact .keep kept
      | onFalse =>
        simp only [nextOfFallback, success, success']
        exact evals_nextOnTruth admits values (.keep kept) (.visit 1 rights) worlds
    · cases op with
      | onFault =>
        simp only [nextOfFallback, raised, raised']
        exact (evals_debug admits switch frames worlds _ _).bind fun _ worlds =>
          evals_pure (.visit 1 rights) worlds
      | onNull | onFalse =>
        simp only [nextOfFallback, raised, raised']
        exact evals_pure (.keep (.raised raised raised')) worlds
  · exact evals_pure (.keep (second.getLastD more)) worlds

theorem evals_nextOfTernary (admits : C.Admits host) (worlds : C.worlds r.world r'.world)
    {c c' a a' b b' : Value} (conditions : c.Twin C.nodes c') (thenBranches : a.Twin C.nodes a')
    (elseBranches : b.Twin C.nodes b') (all : Forall₂ C.Outcomes os os') :
    C.Evals C.Moves (nextOfTernary host c a b os) (nextOfTernary host c' a' b' os') r r' := by
  rcases all with - | ⟨first, - | ⟨second, more⟩⟩
  · exact evals_pure (.visit 0 conditions) worlds
  · obtain ⟨success, success', values⟩ | ⟨raised, raised'⟩ := first
    · simp only [nextOfTernary, success, success']
      exact evals_nextOnTruth admits values (.visit 1 thenBranches) (.visit 2 elseBranches) worlds
    · simp only [nextOfTernary, raised, raised']
      exact evals_pure (.keep (.raised raised raised')) worlds
  · exact evals_pure (.keep (second.getLastD more)) worlds

theorem evals_nextOfCall (admits : C.Admits host) (worlds : C.worlds r.world r'.world)
    {v v' : Value} {args args' : List Value} {stamp : Nat} (callees : v.Twin C.nodes v')
    (operands : Forall₂ (Value.Twin C.nodes) args args') (all : Forall₂ C.Outcomes os os')
    (known : (Form.call v (.tuple args stamp)).Known os) :
    C.Evals C.Moves (nextOfCall host v args os) (nextOfCall host v' args' os') r r' := by
  cases all with
  | nil => exact evals_pure (.visit 0 callees) worlds
  | @cons o o' os os' first more =>
    have last := first.getLastD more
    have slots := Value.Twin.getElem? operands os.length
    obtain ⟨success, success', -⟩ | ⟨raised, raised'⟩ := last
    · simp only [nextOfCall, success, success', ← more.length_eq]
      rcases there : args[os.length]? with _ | arg <;>
        rcases there' : args'[os.length]? with _ | arg' <;> rw [there, there'] at slots
      · have succeeded := (known.of_call (by rw [Outcome.isRaised, success])
          (List.getElem?_eq_none_iff.1 there)).1
        obtain ⟨one, rest⟩ := List.forall_mem_cons.1 succeeded
        have calls := acts_callValue admits (first.values one) (Outcomes.allValues more rest)
        exact calls.finish worlds
      · cases slots
      · cases slots
      · cases slots with
        | some twin => exact evals_pure (.visit _ twin) worlds
    · simp only [nextOfCall, raised, raised']
      exact evals_pure (.keep (.raised raised raised')) worlds

/-- The rules of two forms of the same shape make the same move. -/
theorem evals_next (admits : C.Admits host) (switch : C.Switches host r.frame.debug)
    (frames : C.Frames r.frame r'.frame) (worlds : C.worlds r.world r'.world)
    (forms : C.Forms r.world.store r'.world.store f g) (known : f.Known os)
    (all : Forall₂ C.Outcomes os os') :
    C.Evals C.Moves (f.next host os) (g.next host os') r r' := by
  cases forms with
  | literal values => exact (acts_success admits values).finish worlds
  | @reference name name' text first second =>
    have found : C.Evals C.Outcomes (lookupInFrame name : Eval σ Outcome) (lookupInFrame name')
        r r' := acts_lookup admits (frames.vars text) first second worlds
    exact found.bind fun outcomes worlds => evals_pure (.finish outcomes) worlds
  | call callees operands => exact evals_nextOfCall admits worlds callees operands all known
  | fallback op lefts rights =>
    exact evals_nextOfFallback admits switch frames.debug worlds op lefts rights all
  | ternary conditions thenBranches elseBranches =>
    exact evals_nextOfTernary admits worlds conditions thenBranches elseBranches all
  | raise ways => exact (acts_evalRaise admits ways).finish worlds

/-- The invocations are of related callables with related arguments. -/
def Calls (C : Correspondence σ) (call call' : Value × List Value) : Prop :=
  C.values call.1 call'.1 ∧ Forall₂ C.values call.2 call'.2

/-- The rules of two forms of the same shape invoke related callables, or nothing. -/
theorem rel_invocation? (admits : C.Admits host) (worlds : C.worlds r.world r'.world)
    (forms : C.Forms r.world.store r'.world.store f g) (known : f.Known os)
    (all : Forall₂ C.Outcomes os os') :
    Option.Rel C.Calls (f.invocation? r.world.store os) (g.invocation? r'.world.store os') := by
  cases forms with
  | literal | reference | fallback | ternary => exact .none
  | @call v v' args args' stamp stamp' callees operands =>
    cases all with
    | nil => exact .none
    | @cons o o' os os' first more =>
      have last := (first.getLastD more).isRaised
      have lengths : args.length ≤ os.length ↔ args'.length ≤ os'.length := by
        rw [operands.length_eq, more.length_eq]
      by_cases complete : args.length ≤ os.length ∧ (os.getLastD o).isRaised = false
      · obtain ⟨enough, ended⟩ := complete
        obtain ⟨one, rest⟩ := List.forall_mem_cons.1 (known.of_call ended enough).1
        have callee := first.values one
        simp only [Form.invocation?, Value.tupleItems, lengths.1 enough, enough, ← last, ended,
          ← admits.isCallable callee, true_and]
        split
        · exact .some ⟨callee, Outcomes.allValues more rest⟩
        · exact .none
      · have complete' : ¬(args'.length ≤ os'.length ∧ (os'.getLastD o').isRaised = false) := by
          rwa [← lengths, ← last]
        have first : (Form.call v (.tuple args stamp)).invocation? r.world.store (o :: os) = none :=
          if_neg fun h => complete ⟨h.1, h.2.1⟩
        have second :
            (Form.call v' (.tuple args' stamp')).invocation? r'.world.store (o' :: os') = none :=
          if_neg fun h => complete' ⟨h.1, h.2.1⟩
        rw [first, second]
        exact .none
  | @raise x y ways =>
    have related := ways worlds
    simp only [Form.invocation?]
    generalize r.world.store.ownWay? x = way at related
    generalize r'.world.store.ownWay? y = way' at related
    cases related with
    | none => exact .none
    | @some way way' values =>
      have same := admits.isCallable values
      cases callable : way.isCallable with
      | true => simpa [Option.filter, callable, ← same] using Option.Rel.some ⟨values, .nil⟩
      | false => simp [Option.filter, callable, ← same]

end Decisions

end Correspondence

end Fallback
