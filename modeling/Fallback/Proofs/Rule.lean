import Fallback.Proofs.Tree

/-!
Rules, one move at a time.

The rule of a form looks at the outcomes of the operands that were evaluated so far and decides what
comes next: another operand is evaluated, the last outcome is handed on, or an outcome of the rule's
own is made. `Form.next` is this decision. `GoesOn` says what comes of a rule when every decision is
carried out, and `evalForm_goesOn` that this is what the evaluator does with a form that is fit.
What is said about evaluations rests on the decisions alone from here on: which operand is visited,
which outcome is kept, and in which few ways a fault can enter.
-/
namespace Fallback

open Relation (ReflTransGen)

variable {σ : Type}

/-! ## Decisions -/

/-- What a rule does next: it visits the operand in a slot, keeps the last outcome, or finishes with
an outcome of its own. -/
inductive Move
  | visit (slot : Nat) (v : Value)
  | keep (o : Outcome)
  | finish (o : Outcome)

/-- The value of an outcome; null stands for that of a raised one. -/
def Outcome.value (o : Outcome) : Value :=
  match o.result with
  | .success v => v
  | .raised _ => .null

/-- The truth of a value as a rule asks for it: either the failed call that the test is becomes the
outcome, or the answer decides about the next move. -/
def nextOnTruth (host : Host σ) (v : Value) (onTrue onFalse : Move) : Eval σ Move := do
  match ← Eval.ofAct (truthOrFailure host v) with
  | .error e => return .finish (← Eval.ofAct (Act.raised (.fault e)))
  | .ok b => return if b then onTrue else onFalse

/-- A call visits the callee and then the arguments, and calls when all of them have succeeded. -/
def nextOfCall (host : Host σ) (callee : Value) (items : List Value) :
    List Outcome → Eval σ Move
  | [] => return .visit 0 callee
  | first :: more =>
    let last := more.getLastD first
    match last.result with
    | .raised _ => return .keep last
    | .success _ =>
      match items[more.length]? with
      | some v => return .visit (more.length + 1) v
      | none => do
        return .finish (← Eval.ofAct (callValue host first.value (more.map Outcome.value)))

/-- An operator visits its left operand, and its right operand if it falls back. -/
def nextOfFallback (host : Host σ) (op : Operator) (lhs rhs : Value) :
    List Outcome → Eval σ Move
  | [] => return .visit 0 lhs
  | [current] =>
    match op, current.result with
    | .onFault, .success _ => return .keep current
    | .onFault, .raised _ => do
      debug host fun f => .fallingBack f.depth
      return .visit 1 rhs
    | .onNull, .raised _ | .onFalse, .raised _ => return .keep current
    | .onNull, .success v => return if v.isNull then .visit 1 rhs else .keep current
    | .onFalse, .success v => nextOnTruth host v (.keep current) (.visit 1 rhs)
  | _ :: second :: more => return .keep (more.getLastD second)

/-- A choice visits the condition and then one branch. -/
def nextOfTernary (host : Host σ) (condition thenBranch elseBranch : Value) :
    List Outcome → Eval σ Move
  | [] => return .visit 0 condition
  | [current] =>
    match current.result with
    | .raised _ => return .keep current
    | .success v => nextOnTruth host v (.visit 1 thenBranch) (.visit 2 elseBranch)
  | _ :: second :: more => return .keep (more.getLastD second)

/-- The outcome of looking up a name in the snapshot of the frame. -/
def lookupInFrame (name : Value) : Eval σ Outcome := do
  Eval.ofAct (lookup (← Eval.frame).vars name)

/-- What the rule of a form does after the outcomes of the operands so far. -/
def Form.next (host : Host σ) (f : Form) (os : List Outcome) : Eval σ Move :=
  match f with
  | .literal v => do return .finish (← Eval.ofAct (Act.success v))
  | .reference name => do return .finish (← lookupInFrame name)
  | .call callee args => nextOfCall host callee args.tupleItems os
  | .fallback op lhs rhs => nextOfFallback host op lhs rhs os
  | .ternary condition thenBranch elseBranch =>
    nextOfTernary host condition thenBranch elseBranch os
  | .raise exception => do return .finish (← Eval.ofAct (evalRaise host exception))

/-! ## What decisions are like -/

section Decisions

open Work

variable {host : Host σ}

theorem makes_nextOnTruth (v : Value) (onTrue onFalse : Move) :
    (nextOnTruth host v onTrue onFalse).Makes (Run.Change host) := by
  unfold nextOnTruth
  refine (composed_truthOrFailure v).makes.eval.bind fun result => ?_
  cases result with
  | error e => exact (Act.composed_raised _).makes.eval.bind fun _ => makes_pure _
  | ok b => exact makes_pure _

theorem makes_nextOfCall (callee : Value) (items : List Value) (os : List Outcome) :
    (nextOfCall host callee items os).Makes (Run.Change host) := by
  unfold nextOfCall
  split
  · exact makes_pure _
  · dsimp only
    split
    · exact makes_pure _
    · split
      · exact makes_pure _
      · exact (composed_callValue _ _).makes.eval.bind fun _ => makes_pure _

theorem makes_nextOfFallback (op : Operator) (lhs rhs : Value) (os : List Outcome) :
    (nextOfFallback host op lhs rhs os).Makes (Run.Change host) := by
  unfold nextOfFallback
  split
  · exact makes_pure _
  · split
    · exact makes_pure _
    · exact (makes_debug _).bind fun _ => makes_pure _
    · exact makes_pure _
    · exact makes_pure _
    · exact makes_pure _
    · exact makes_nextOnTruth _ _ _
  · exact makes_pure _

theorem makes_nextOfTernary (condition thenBranch elseBranch : Value) (os : List Outcome) :
    (nextOfTernary host condition thenBranch elseBranch os).Makes (Run.Change host) := by
  unfold nextOfTernary
  split
  · exact makes_pure _
  · split
    · exact makes_pure _
    · exact makes_nextOnTruth _ _ _
  · exact makes_pure _

/-- Deciding opens and closes nothing. -/
theorem Form.makes_next (f : Form) (os : List Outcome) :
    (f.next host os).Makes (Run.Change host) := by
  cases f with
  | literal v => exact (Act.composed_success v).makes.eval.bind fun _ => makes_pure _
  | reference name =>
    refine Work.Makes.bind ?_ fun _ => makes_pure _
    exact Eval.makes_frame.bind fun f => (composed_lookup f.vars name).makes.eval
  | call callee args => exact makes_nextOfCall _ _ _
  | fallback op lhs rhs => exact makes_nextOfFallback _ _ _ _
  | ternary condition thenBranch elseBranch => exact makes_nextOfTernary _ _ _ _
  | raise exception => exact (composed_evalRaise exception).makes.eval.bind fun _ => makes_pure _

/-- After a truth test the rule makes one of the two moves, or finishes with the failed test. -/
theorem nextOnTruth_cases {v : Value} {onTrue onFalse m : Move} {r r' : Run σ}
    (h : (nextOnTruth host v onTrue onFalse).runOn r = (.ok m, r')) :
    m = onTrue ∨ m = onFalse ∨ ∃ o, m = .finish o := by
  obtain ⟨tested, r₁, -, h⟩ := runOn_bind_eq_ok.1 h
  cases tested with
  | error e =>
    obtain ⟨o, r₂, -, h⟩ := runOn_bind_eq_ok.1 h
    cases h
    exact .inr (.inr ⟨o, rfl⟩)
  | ok b =>
    cases h
    cases b with
    | true => exact .inl rfl
    | false => exact .inr (.inl rfl)

/-- A rule that makes an outcome of its own visits nothing and keeps nothing. -/
theorem finish_of_make {x : Eval σ Outcome} {m : Move} {r r' : Run σ}
    (h : (do return Move.finish (← x) : Eval σ Move).runOn r = (.ok m, r')) :
    ∃ o, m = .finish o ∧ x.runOn r = (.ok o, r') := by
  obtain ⟨o, r₁, hx, h⟩ := runOn_bind_eq_ok.1 h
  cases h
  exact ⟨o, rfl, hx⟩

/-- The form lets go of a fault that the operand in the slot raises. -/
def Form.Catches (f : Form) (slot : Nat) : Prop :=
  slot = 0 ∧ ∃ lhs rhs, f = .fallback .onFault lhs rhs

/-- What a decision can be. A raised outcome is handed on at once, and nothing else is done then,
unless the form catches it. -/
inductive Form.Decides (f : Form) : List Outcome → Run σ → Move → Run σ → Prop
  | first {v r} (operand : f.operands[0]? = some v) : f.Decides [] r (.visit 0 v) r
  | more {os o i v r r'} (last : os.getLast? = some o) (succeeded : o.isRaised = false)
      (later : os.length ≤ i + 1) (operand : f.operands[i + 1]? = some v) :
      f.Decides os r (.visit (i + 1) v) r'
  | catches {o v r r'} (caught : f.Catches 0) (raised : o.isRaised = true)
      (operand : f.operands[1]? = some v) : f.Decides [o] r (.visit 1 v) r'
  | handsOn {os o r} (last : os.getLast? = some o) (raised : o.isRaised = true)
      (uncaught : os = [o] → ¬f.Catches 0) : f.Decides os r (.keep o) r
  | keeps {os o r r'} (last : os.getLast? = some o) (succeeded : o.isRaised = false) :
      f.Decides os r (.keep o) r'
  | finishes {os o r r'}
      (succeeded : f.operands ≠ [] → ∀ o ∈ os.getLast?, o.isRaised = false) :
      f.Decides os r (.finish o) r'

/-- Any form may keep the last outcome as it is, if it does not catch it. -/
theorem Form.decides_keep {f : Form} {os : List Outcome} {o : Outcome} (r : Run σ)
    (last : os.getLast? = some o) (uncaught : os = [o] → ¬f.Catches 0) :
    f.Decides os r (.keep o) r := by
  cases hr : o.isRaised with
  | true => exact .handsOn last hr uncaught
  | false => exact .keeps last hr

theorem nextOfFallback_decides {op : Operator} {lhs rhs : Value} {os : List Outcome} {m : Move}
    {r r' : Run σ} (h : (nextOfFallback host op lhs rhs os).runOn r = (.ok m, r')) :
    (Form.fallback op lhs rhs).Decides os r m r' := by
  rcases os with _ | ⟨current, _ | ⟨second, more⟩⟩
  · cases h
    exact .first rfl
  · obtain ⟨self, v | e⟩ := current
    · cases op with
      | onFault =>
        cases h
        exact .keeps rfl rfl
      | onNull =>
        simp only [nextOfFallback] at h
        split at h
        · cases h
          exact .more rfl rfl (by simp) rfl
        · cases h
          exact .keeps rfl rfl
      | onFalse =>
        obtain rfl | rfl | ⟨o, rfl⟩ := nextOnTruth_cases h
        · exact .keeps rfl rfl
        · exact .more rfl rfl (by simp) rfl
        · exact .finishes fun _ => by simp [Outcome.isRaised]
    · cases op with
      | onFault =>
        obtain ⟨u, r₁, -, h⟩ := runOn_bind_eq_ok.1 h
        cases h
        exact .catches ⟨rfl, lhs, rhs, rfl⟩ rfl rfl
      | onNull =>
        cases h
        exact Form.decides_keep r rfl fun _ => by simp [Form.Catches]
      | onFalse =>
        cases h
        exact Form.decides_keep r rfl fun _ => by simp [Form.Catches]
  · cases h
    exact Form.decides_keep r (by simp [List.getLast?_cons]) nofun

theorem nextOfTernary_decides {condition thenBranch elseBranch : Value} {os : List Outcome}
    {m : Move} {r r' : Run σ}
    (h : (nextOfTernary host condition thenBranch elseBranch os).runOn r = (.ok m, r')) :
    (Form.ternary condition thenBranch elseBranch).Decides os r m r' := by
  have uncaught : ¬(Form.ternary condition thenBranch elseBranch).Catches 0 := by
    simp [Form.Catches]
  rcases os with _ | ⟨current, _ | ⟨second, more⟩⟩
  · cases h
    exact .first rfl
  · obtain ⟨self, v | e⟩ := current
    · obtain rfl | rfl | ⟨o, rfl⟩ := nextOnTruth_cases h
      · exact .more rfl rfl (by simp) rfl
      · exact .more rfl rfl (by simp) rfl
      · exact .finishes fun _ => by simp [Outcome.isRaised]
    · cases h
      exact Form.decides_keep r rfl fun _ => uncaught
  · cases h
    exact Form.decides_keep r (by simp [List.getLast?_cons]) fun _ => uncaught

theorem nextOfCall_decides {callee args : Value} {os : List Outcome} {m : Move} {r r' : Run σ}
    (h : (nextOfCall host callee args.tupleItems os).runOn r = (.ok m, r')) :
    (Form.call callee args).Decides os r m r' := by
  have uncaught : ¬(Form.call callee args).Catches 0 := by simp [Form.Catches]
  rcases os with _ | ⟨first, more⟩
  · cases h
    exact .first rfl
  · have last : (first :: more).getLast? = some (more.getLastD first) := by
      rw [List.getLast?_cons, List.getLastD_eq_getLast?]
    simp only [nextOfCall] at h
    split at h
    · cases h
      exact Form.decides_keep r last fun _ => uncaught
    · next v hv =>
      have succeeded : (more.getLastD first).isRaised = false := by rw [Outcome.isRaised, hv]
      split at h
      · next w hw =>
        cases h
        exact .more last succeeded (Nat.le_refl _) hw
      · obtain ⟨o, rfl, -⟩ := finish_of_make h
        exact .finishes fun _ o ho => by
          rw [last] at ho
          cases ho
          exact succeeded

/-- Every decision that is made is one of these. -/
theorem Form.next_decides {f : Form} {os : List Outcome} {m : Move} {r r' : Run σ}
    (h : (f.next host os).runOn r = (.ok m, r')) : f.Decides os r m r' := by
  cases f with
  | literal w =>
    obtain ⟨o, rfl, -⟩ := finish_of_make h
    exact .finishes fun none => absurd rfl none
  | raise exception =>
    obtain ⟨o, rfl, -⟩ := finish_of_make h
    exact .finishes fun none => absurd rfl none
  | reference name =>
    obtain ⟨o, rfl, -⟩ := finish_of_make h
    exact .finishes fun none => absurd rfl none
  | call callee args => exact nextOfCall_decides h
  | fallback op lhs rhs => exact nextOfFallback_decides h
  | ternary condition thenBranch elseBranch => exact nextOfTernary_decides h

/-- A raised outcome that a rule keeps is the last one, and the rule has done nothing to keep it. -/
theorem Form.handsOn_of_keep {f : Form} {os : List Outcome} {o : Outcome} {e : Value}
    {r r' : Run σ} (h : (f.next host os).runOn r = (.ok (.keep o), r'))
    (raised : o.result = .raised e) :
    os.getLast? = some o ∧ (os = [o] → ¬f.Catches 0) ∧ r' = r := by
  cases f.next_decides h with
  | handsOn last raised uncaught => exact ⟨last, uncaught, rfl⟩
  | keeps last succeeded =>
    rw [Outcome.isRaised, raised] at succeeded
    cases succeeded

/-- The slot of the left operand is visited before all others. -/
theorem Form.eq_nil_of_visit_zero {f : Form} {os : List Outcome} {v : Value} {r r' : Run σ}
    (h : (f.next host os).runOn r = (.ok (.visit 0 v), r')) : os = [] := by
  cases f.next_decides h with
  | first operand => rfl

theorem Form.next_visit_mem {f : Form} {os : List Outcome} {i : Nat} {v : Value} {r r' : Run σ}
    (h : (f.next host os).runOn r = (.ok (.visit i v), r')) : v ∈ f.operands := by
  cases f.next_decides h with
  | first operand => exact List.mem_of_getElem? operand
  | more _ _ _ operand => exact List.mem_of_getElem? operand
  | catches _ _ operand => exact List.mem_of_getElem? operand

/-- The decision that ends a rule makes nothing but changes. -/
theorem Form.changes_of_end {f : Form} {os : List Outcome} {o : Outcome} {r r' : Run σ}
    (h : (f.next host os).runOn r = (.ok (.keep o), r') ∨
      (f.next host os).runOn r = (.ok (.finish o), r')) : ReflTransGen (Run.Change host) r r' :=
  h.elim (f.makes_next os).of_run (f.makes_next os).of_run

end Decisions

/-! ## Carrying decisions out -/

/-- How a rule goes on after some outcomes, for an evaluator of operands: what it ends with, and in
which state. -/
inductive GoesOn (eval : Value → Eval σ Outcome) (next : List Outcome → Eval σ Move) :
    List Outcome → Run σ → Except FaultRef Outcome × Run σ → Prop
  | broken {os r e r'} (decided : (next os).runOn r = (.error e, r')) :
      GoesOn eval next os r (.error e, r')
  | keeps {os r o r'} (decided : (next os).runOn r = (.ok (.keep o), r')) :
      GoesOn eval next os r (.ok o, r')
  | finishes {os r o r'} (decided : (next os).runOn r = (.ok (.finish o), r')) :
      GoesOn eval next os r (.ok o, r')
  | brokenBelow {os r i v r₁ e r'} (decided : (next os).runOn r = (.ok (.visit i v), r₁))
      (visited : (eval v).runOn r₁ = (.error e, r')) : GoesOn eval next os r (.error e, r')
  | visits {os r i v r₁ o r₂ p} (decided : (next os).runOn r = (.ok (.visit i v), r₁))
      (visited : (eval v).runOn r₁ = (.ok o, r₂))
      (rest : GoesOn eval next (os ++ [o]) r₂ p) : GoesOn eval next os r p

section GoesOn

variable {eval : Value → Eval σ Outcome} {next : List Outcome → Eval σ Move} {os : List Outcome}
  {r r₁ : Run σ}

/-- There is one way to go on. -/
theorem GoesOn.unique {p q : Except FaultRef Outcome × Run σ} (h : GoesOn eval next os r p)
    (k : GoesOn eval next os r q) : p = q := by
  induction h with
  | broken decided => cases k <;> simp_all
  | keeps decided => cases k <;> simp_all
  | finishes decided => cases k <;> simp_all
  | brokenBelow decided visited => cases k <;> simp_all
  | visits decided visited rest ih =>
    cases k with
    | visits decided' visited' rest' =>
      rw [decided] at decided'
      cases decided'
      rw [visited] at visited'
      cases visited'
      exact ih rest'
    | brokenBelow decided' visited' =>
      rw [decided] at decided'
      cases decided'
      rw [visited] at visited'
      cases visited'
    | broken decided' => rw [decided] at decided'; cases decided'
    | keeps decided' => rw [decided] at decided'; cases decided'
    | finishes decided' => rw [decided] at decided'; cases decided'

/-- A rule that visits an operand evaluates it and goes on with its outcome. -/
theorem goesOn_visit {i : Nat} {v : Value} (decided : (next os).runOn r = (.ok (.visit i v), r₁))
    {more : Outcome → Eval σ Outcome}
    (rest : ∀ o r₂, GoesOn eval next (os ++ [o]) r₂ ((more o).runOn r₂)) :
    GoesOn eval next os r ((eval v >>= more).runOn r₁) := by
  rw [Work.runOn_bind]
  rcases visited : (eval v).runOn r₁ with ⟨e | o, r₂⟩
  · exact .brokenBelow decided visited
  · exact .visits decided visited (rest o r₂)

/-- A rule that visits an operand and keeps its outcome evaluates the operand. -/
theorem goesOn_visit_keep {i : Nat} {v : Value}
    (decided : (next os).runOn r = (.ok (.visit i v), r₁))
    (kept : ∀ o, next (os ++ [o]) = return .keep o) :
    GoesOn eval next os r ((eval v).runOn r₁) := by
  rw [← bind_pure (eval v)]
  exact goesOn_visit decided fun o r₂ => .keeps (by rw [kept]; rfl)

/-- A rule that makes an outcome of its own ends with it. -/
theorem goesOn_finish {x : Eval σ Outcome} (made : next os = do return .finish (← x)) :
    GoesOn eval next os r (x.runOn r) := by
  have decided := congrArg (Work.runOn · r) made
  simp only [Work.runOn_bind] at decided
  rcases hx : x.runOn r with ⟨e | o, r'⟩
  · rw [hx] at decided
    exact .broken decided
  · rw [hx] at decided
    exact .finishes decided

/-- A rule that asks for a truth ends with the failed test, or goes on as the answer says. -/
theorem goesOn_onTruth {host : Host σ} {v : Value} {onTrue onFalse : Move}
    (asked : next os = nextOnTruth host v onTrue onFalse) {whenTrue whenFalse : Eval σ Outcome}
    (ht : ∀ r₁, (next os).runOn r = (.ok onTrue, r₁) →
      GoesOn eval next os r (whenTrue.runOn r₁))
    (hf : ∀ r₁, (next os).runOn r = (.ok onFalse, r₁) →
      GoesOn eval next os r (whenFalse.runOn r₁)) :
    GoesOn eval next os r ((do
      match ← Eval.ofAct (truthOrFailure host v) with
      | .error e => Eval.ofAct (Act.raised (.fault e))
      | .ok b => if b then whenTrue else whenFalse : Eval σ Outcome).runOn r) := by
  have decided := congrArg (Work.runOn · r) asked
  simp only [nextOnTruth, Work.runOn_bind] at decided ⊢
  rcases hx : (Eval.ofAct (truthOrFailure host v)).runOn r with ⟨e | (e | b), r₁⟩
  · rw [hx] at decided
    exact .broken decided
  · rw [hx] at decided
    simp only [Work.runOn_bind] at decided ⊢
    rcases hy : (Eval.ofAct (Act.raised (.fault e))).runOn r₁ with ⟨e' | o, r'⟩
    · rw [hy] at decided
      exact .broken decided
    · rw [hy] at decided
      exact .finishes decided
  · rw [hx] at decided
    cases b with
    | true => exact ht r₁ decided
    | false => exact hf r₁ decided

end GoesOn

section Forms

variable {host : Host σ} {eval : Value → Eval σ Outcome}

theorem evalFallback_goesOn (op : Operator) (lhs rhs : Value) (r : Run σ) :
    GoesOn eval (nextOfFallback host op lhs rhs) [] r
      ((evalFallback host eval op lhs rhs).runOn r) := by
  have decided : (nextOfFallback host op lhs rhs []).runOn r = (.ok (.visit 0 lhs), r) := rfl
  unfold evalFallback
  refine goesOn_visit decided fun current r₁ => ?_
  obtain ⟨self, result⟩ := current
  have right {r₂ : Run σ} (h : (nextOfFallback host op lhs rhs [⟨self, result⟩]).runOn r₁ =
      (.ok (.visit 1 rhs), r₂)) :
      GoesOn eval (nextOfFallback host op lhs rhs) [⟨self, result⟩] r₁ ((eval rhs).runOn r₂) :=
    goesOn_visit_keep h fun _ => rfl
  cases op with
  | onFault =>
    cases result with
    | success v => exact .keeps rfl
    | raised e =>
      have decided : (nextOfFallback host .onFault lhs rhs [⟨self, .raised e⟩]).runOn r₁ = _ :=
        Work.runOn_bind _ _ _
      show GoesOn eval _ _ r₁ ((debug host _ >>= fun _ => eval rhs).runOn r₁)
      rw [Work.runOn_bind]
      rcases hd : (debug host fun f => .fallingBack f.depth).runOn r₁ with ⟨e' | u, r₂⟩
      · rw [hd] at decided
        exact .broken decided
      · rw [hd] at decided
        exact right decided
  | onNull =>
    cases result with
    | raised e => exact .keeps rfl
    | success v =>
      show GoesOn eval _ _ r₁ ((if v.isNull then eval rhs else _).runOn r₁)
      cases hv : v.isNull with
      | true => exact right (by simp [nextOfFallback, hv])
      | false => exact .keeps (by simp [nextOfFallback, hv])
  | onFalse =>
    cases result with
    | raised e => exact .keeps rfl
    | success v =>
      exact goesOn_onTruth rfl (fun r₂ h => .keeps h) fun r₂ h => right h

theorem evalTernary_goesOn (condition thenBranch elseBranch : Value) (r : Run σ) :
    GoesOn eval (nextOfTernary host condition thenBranch elseBranch) [] r
      ((evalTernary host eval condition thenBranch elseBranch).runOn r) := by
  have decided : (nextOfTernary host condition thenBranch elseBranch []).runOn r =
    (.ok (.visit 0 condition), r) := rfl
  unfold evalTernary
  refine goesOn_visit decided fun current r₁ => ?_
  obtain ⟨self, result⟩ := current
  cases result with
  | raised e => exact .keeps rfl
  | success v =>
    exact goesOn_onTruth rfl (fun r₂ h => goesOn_visit_keep h fun _ => rfl)
      fun r₂ h => goesOn_visit_keep h fun _ => rfl

/-- A tuple is never added to, so nothing more is evaluated. -/
theorem evalAdded_tuple (items : List Value) (stamp : Nat) :
    evalAdded eval (.tuple items stamp) items.length = pure () := by
  simp only [evalAdded, Eval.store, Store.items?, Option.getD_some, List.drop_length, bind_assoc,
    pure_bind]
  rfl

/-- What a call does after the walk through its arguments: it hands on the outcome that ended the
walk, or calls with the arguments known before and those of the walk. -/
def callAfter (host : Host σ) (f : Value) (known : List Value) :
    Except Outcome (List Value) → Eval σ Outcome
  | .error o => return o
  | .ok vs => Eval.ofAct (callValue host f (known ++ vs))

theorem evalArgs_cons_callAfter (f : Value) (known : List Value) (arg : Value)
    (rest : List Value) :
    evalArgs eval (arg :: rest) >>= callAfter host f known = (do
      let o ← eval arg
      match o.result with
      | .raised _ => return o
      | .success v => evalArgs eval rest >>= callAfter host f (known ++ [v])) := by
  rw [evalArgs, bind_assoc]
  refine bind_congr fun ⟨self, result⟩ => ?_
  cases result with
  | raised e => rfl
  | success v =>
    dsimp only
    rw [bind_assoc]
    refine bind_congr fun walked => ?_
    cases walked with
    | error o => rfl
    | ok vs => simp [callAfter]

theorem evalCall_tuple (callee : Value) (items : List Value) (stamp : Nat) :
    evalCall host eval callee (.tuple items stamp) = (do
      let o ← eval callee
      match o.result with
      | .raised _ => return o
      | .success f => evalArgs eval items >>= callAfter host f []) := by
  rw [evalCall]
  refine bind_congr fun ⟨self, result⟩ => ?_
  cases result with
  | raised e => rfl
  | success f =>
    have known : (Eval.ofAttempt (Attempt.items (.tuple items stamp)) : Eval σ (List Value)) =
      pure items := rfl
    dsimp only
    rw [known, pure_bind]
    refine bind_congr fun walked => ?_
    cases walked with
    | error o => rfl
    | ok vs =>
      dsimp only
      rw [evalAdded_tuple, pure_bind]
      rfl

/-- The walk through the remaining arguments, once the callee and the arguments before them have
succeeded. -/
theorem evalArgs_goesOn (callee : Value) (items : List Value) {first : Outcome} {f : Value}
    (hfirst : first.result = .success f) (rest : List Value) (more : List Outcome) (r : Run σ)
    (hrest : items.drop more.length = rest)
    (hlast : ∃ v, (more.getLastD first).result = .success v) :
    GoesOn eval (nextOfCall host callee items) (first :: more) r
      ((evalArgs eval rest >>= callAfter host f (more.map Outcome.value)).runOn r) := by
  obtain ⟨v, hv⟩ := hlast
  have here : items[more.length]? = rest.head? := by rw [← List.head?_drop, hrest]
  induction rest generalizing more r v with
  | nil =>
    refine goesOn_finish ?_
    have value : first.value = f := by rw [Outcome.value, hfirst]
    simp only [nextOfCall, hv, here, List.head?_nil, evalArgs, callAfter, pure_bind,
      List.append_nil, value]
  | cons arg rest ih =>
    rw [evalArgs_cons_callAfter]
    have visit : nextOfCall host callee items (first :: more) =
        return .visit (more.length + 1) arg := by
      simp only [nextOfCall, hv, here, List.head?_cons]
    have decided : (nextOfCall host callee items (first :: more)).runOn r = _ :=
      congrArg (Work.runOn · r) visit
    refine goesOn_visit decided fun o r₂ => ?_
    obtain ⟨self, result⟩ := o
    cases result with
    | raised e => exact .keeps (by simp [nextOfCall])
    | success w =>
      have dropped : items.drop (more ++ [(⟨self, .success w⟩ : Outcome)]).length = rest := by
        rw [List.length_append, ← List.drop_drop, hrest]
        rfl
      have step := ih (more ++ [⟨self, .success w⟩]) r₂ dropped w (by simp)
        (by rw [← List.head?_drop, dropped])
      rw [List.map_append] at step
      exact step

theorem evalCall_goesOn (callee : Value) (items : List Value) (stamp : Nat) (r : Run σ) :
    GoesOn eval (nextOfCall host callee items) [] r
      ((evalCall host eval callee (.tuple items stamp)).runOn r) := by
  have decided : (nextOfCall host callee items []).runOn r = (.ok (.visit 0 callee), r) := rfl
  rw [evalCall_tuple]
  refine goesOn_visit decided fun first r₁ => ?_
  obtain ⟨self, result⟩ := first
  cases result with
  | raised e => exact .keeps rfl
  | success f =>
    have isFirst : (⟨self, .success f⟩ : Outcome).result = .success f := rfl
    exact evalArgs_goesOn callee items isFirst items [] r₁ rfl ⟨f, rfl⟩

/-- The rule of a form that is fit goes on as its decisions say. -/
theorem evalForm_goesOn {s : Store} {f : Form} (fit : f.IsFit s) (r : Run σ) :
    GoesOn eval (f.next host) [] r ((evalForm host eval f).runOn r) := by
  cases f with
  | literal v => exact goesOn_finish rfl
  | reference name => exact goesOn_finish rfl
  | call callee args =>
    obtain ⟨items, stamp, rfl⟩ := fit
    exact evalCall_goesOn callee items stamp r
  | fallback op lhs rhs => exact evalFallback_goesOn op lhs rhs r
  | ternary condition thenBranch elseBranch =>
    exact evalTernary_goesOn condition thenBranch elseBranch r
  | raise exception => exact goesOn_finish rfl

end Forms

end Fallback
