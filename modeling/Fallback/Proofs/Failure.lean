import Fallback.Proofs.Position

/-!
How faults enter an evaluation.

A rule calls the host in two places, to invoke a value and to test the truth of one, and both calls
are guarded. `guardFault` says what a guard makes of a fault that the host ended with: it lets the
fault through, or it makes a failed call with that fault as its cause, or it breaks off itself
because the message of the fault cannot be written. `Form.HostFails` says when a rule is in this
situation. Besides, a fault enters where a name is not bound, where a raising node is evaluated and
where something is called that cannot be; `Form.Breaks` and `Form.Raises` list all of it for the
decisions of a rule.
-/
namespace Fallback

open Relation (ReflTransGen)

variable {σ : Type} {host : Host σ}

/-! ## Guards -/

/-- What a guard makes of a fault. The kinds that it lets through are given, and how the message of
the failed call contains the text of the fault. -/
def guardFault (letsThrough : FaultKind → Bool) (message : String → String) (c : FaultRef) :
    Act σ FaultRef :=
  Work.ofRun fun w =>
    if letsThrough (w.store.fault c).kind then (.error c, w)
    else match w.store.namedText (.fault c) with
      | .ok named =>
        (.ok ⟨w.store.faults.size⟩,
          { w with store := Attempt.withFailedCall w.store c (message named) })
      | .error m => (Act.ofAttempt (Attempt.misuse m) : Act σ FaultRef).runOn w

/-- The guard around a truth test. -/
def guardTest (c : FaultRef) : Act σ FaultRef :=
  guardFault (fun k => !k.isOrdinary) ("truth test failed: " ++ ·) c

/-- The guard around an invocation. -/
def guardCall (c : FaultRef) : Act σ FaultRef :=
  guardFault FaultKind.escapesCall id c

theorem runOn_truthOrFailure (v : Value) (w : World σ) :
    (truthOrFailure host v).runOn w =
      match (truthTest host v).runOn w with
      | (.ok b, w₁) => (.ok (.ok b), w₁)
      | (.error c, w₁) =>
        (do return .error (← guardTest c) : Act σ (Except FaultRef Bool)).runOn w₁ := by
  rw [truthOrFailure, Work.runOn_bind, Work.runOn_guarded]
  rcases (truthTest host v).runOn w with ⟨c | b, w₁⟩
  · dsimp only
    rw [Work.runOn_bind, Act.runOn_store, Work.runOn_bind]
    dsimp only
    rw [guardTest, guardFault, Work.runOn_ofRun]
    cases ordinary : (w₁.store.fault c).kind.isOrdinary with
    | false => simp
    | true =>
      simp only [if_true, Bool.not_true, Bool.false_eq_true, if_false]
      rw [Work.runOn_bind, Act.runOn_ofAttempt, Attempt.runOn_testFailure]
      rcases w₁.store.namedText (.fault c) with m | named <;> rfl
  · rfl

theorem runOn_callValue {callee : Value} (callable : callee.isCallable = true)
    (args : List Value) (w : World σ) :
    (callValue host callee args).runOn w =
      match (invoke host callee args).runOn w with
      | (.ok v, w₁) => (Act.success v).runOn w₁
      | (.error c, w₁) => (do Act.raised (.fault (← guardCall c)) : Act σ Outcome).runOn w₁ := by
  rw [callValue, Work.runOn_bind, Act.runOn_store]
  simp only [callable, if_true]
  rw [Work.runOn_bind, Work.runOn_guarded]
  rcases (invoke host callee args).runOn w with ⟨c | v, w₁⟩
  · dsimp only
    rw [Work.runOn_bind, Act.runOn_store, Work.runOn_bind]
    dsimp only
    rw [guardCall, guardFault, Work.runOn_ofRun]
    cases escapes : (w₁.store.fault c).kind.escapesCall with
    | true => simp
    | false =>
      simp only [Bool.false_eq_true, if_false]
      rw [Act.raisedFault, Work.runOn_bind, Act.runOn_ofAttempt, Attempt.runOn_callFailure]
      rcases w₁.store.namedText (.fault c) with m | named <;> rfl
  · rfl

/-! ## Looking up names -/

/-- A text can always be looked up. -/
theorem Store.checkKey_of_text {s : Store} {v : Value} {t : String} (h : s.text? v = some t) :
    s.checkKey v = .ok () := by
  cases v with
  | str t stamp => rfl
  | token r => rfl
  | _ => cases h

/-- A text is shown as it is. -/
theorem Store.plainText_of_text {s : Store} {v : Value} {t : String} (h : s.text? v = some t) :
    s.plainText v = .ok t := by
  cases v with
  | str t stamp =>
    cases h
    rfl
  | token r =>
    cases h
    rfl
  | _ => cases h

theorem runOn_checkKey {w : World σ} {v : Value} {t : String} (h : w.store.text? v = some t) :
    (Act.ofAttempt (Attempt.ask fun s => s.checkKey v) : Act σ Unit).runOn w = (.ok (), w) := by
  rw [Act.runOn_ofAttempt, Attempt.runOn_ask, Store.checkKey_of_text h]

/-- The store in which the fault that a name is not bound was made. -/
def Store.withUnbound (s : Store) (name : Value) (t : String) : Store :=
  (s.addStamp.2.addStamp.2.addFault
    ⟨.unboundName, .tuple [.str s!"Name '{t}' not found" s.nextStamp] (s.nextStamp + 1), .null,
      .null, [(Fault.subjectName, name)]⟩).2

theorem runOn_lookup {w : World σ} {name : Value} {t : String} (named : w.store.text? name = some t)
    (vars : Environment) :
    (lookup vars name).runOn w =
      match vars.get? t with
      | some v => (Act.success v).runOn w
      | none =>
        (Act.raised (.fault ⟨w.store.faults.size⟩)).runOn
          { w with store := w.store.withUnbound name t } := by
  rw [lookup, Work.runOn_bind_ok (runOn_checkKey named), Work.runOn_bind, Act.runOn_store]
  simp only [named, Option.bind_some]
  cases vars.get? t with
  | some v => rfl
  | none =>
    have made : (Attempt.unbound name).runOn w.store =
        (.ok ⟨w.store.faults.size⟩, w.store.withUnbound name t) := by
      rw [Attempt.unbound, Work.runOn_bind, Attempt.runOn_ask, Store.plainText_of_text named]
      rfl
    dsimp only
    rw [Act.raisedFault, Work.runOn_bind, Act.runOn_ofAttempt, made]

/-! ## Calling what cannot be called -/

/-- The only argument of a fault without a place is shown as it is, if it is a message; only the
message of a missing key is quoted. -/
theorem Store.plainText_of_args {s : Store} {c : FaultRef} {message : String} {stamp stamp' : Nat}
    (args : (s.fault c).args = .tuple [.str message stamp] stamp')
    (plain : (s.fault c).kind ≠ .missingKey) (unplaced : (s.fault c).place = .null) :
    s.plainText (.fault c) = .ok message := by
  have place (depth : Nat) : s.placeText (s.render depth [] .plain) (s.fault c) = .ok "" := by
    rw [placeText, unplaced]
    rfl
  rw [plainText, s.interpreter.valueDepth_eq]
  simp only [render, args, if_neg plain]
  rw [place]
  show Except.ok (message ++ "") = Except.ok message
  rw [String.append_empty]

/-- A message is shown as it is. -/
theorem Store.plainText_of_message {s t : Store} {c : FaultRef} {kind : FaultKind}
    {message : String} (plain : kind ≠ .missingKey)
    (h : s.fault c = Attempt.faultAt t kind .null message) :
    s.plainText (.fault c) = .ok message := by
  refine plainText_of_args (by rw [h]; rfl) (by rw [h]; exact plain) ?_
  rw [h, Attempt.faultAt]

/-- The message of the fault that a value of a type cannot be called. -/
def uncallableText (typeName : String) : String :=
  "'" ++ typeName ++ "' object is not callable"

/-- The store in which the fault that a value cannot be called was made. -/
def Store.withUncallable (s : Store) (v : Value) : Store :=
  (s.addStamp.2.addStamp.2.addFault
    (Attempt.faultAt s .badType .null (uncallableText (s.typeName v)))).2

/-- What cannot be called is reported as a failed call because of that fault. -/
theorem runOn_callValue_of_uncallable {callee : Value} (callable : callee.isCallable = false)
    (args : List Value) (w : World σ) :
    (callValue host callee args).runOn w =
      (Act.raised (.fault ⟨(w.store.withUncallable callee).faults.size⟩)).runOn
        { w with
          store := Attempt.withFailedCall (w.store.withUncallable callee) ⟨w.store.faults.size⟩
            ("TypeError: " ++ uncallableText (w.store.typeName callee)) } := by
  let message := uncallableText (w.store.typeName callee)
  let c : FaultRef := ⟨w.store.faults.size⟩
  let s := w.store.withUncallable callee
  have kept : s.fault c = Attempt.faultAt w.store .badType .null message :=
    Store.fault_addFault_self _ _
  have named : s.namedText (.fault c) = .ok ("TypeError: " ++ message) := by
    rw [Store.namedText, Store.plainText_of_message (by decide) kept]
    show Except.ok ((s.fault c).kind.name ++ ": " ++ message) = _
    rw [kept]
    rfl
  have made : (Act.ofAttempt (Attempt.callFailure (.fault c)) : Act σ FaultRef).runOn
      { w with store := s } =
        (.ok ⟨s.faults.size⟩,
          { w with store := Attempt.withFailedCall s c ("TypeError: " ++ message) }) := by
    rw [Act.runOn_ofAttempt, Attempt.runOn_callFailure, named]
  rw [callValue, Work.runOn_bind, Act.runOn_store]
  simp only [callable, Bool.false_eq_true, if_false]
  rw [Work.runOn_bind, Act.runOn_ofAttempt]
  exact Work.runOn_bind_ok made _

/-- The report on what cannot be called can always be made. -/
theorem runOn_callValue_of_not_callable {callee : Value} (callable : callee.isCallable = false)
    (args : List Value) (w : World σ) :
    ∃ (c : FaultRef) (s : Store) (named : String),
      (∃ e, s = (w.store.addStamp.2.addStamp.2.addFault e).2) ∧
      (callValue host callee args).runOn w =
        (Act.raised (.fault ⟨s.faults.size⟩)).runOn
          { w with store := Attempt.withFailedCall s c named } :=
  ⟨_, _, _, ⟨_, rfl⟩, runOn_callValue_of_uncallable callable args w⟩

/-! ## Calls of the host that fail -/

/-- The outcomes before the last are those of operands that succeeded, and there are no more
outcomes than operands. -/
structure Form.Known (f : Form) (os : List Outcome) : Prop where
  length_le : os.length ≤ f.operands.length
  succeeded : ¬f.Catches 0 → ∀ o ∈ os.dropLast, o.isRaised = false

theorem Position.Progress.known {p : Position σ} {os : List Outcome} {r : Run σ}
    (h : p.Progress host os r) : p.form.Known os := by
  induction h with
  | entered budget enter => exact ⟨Nat.zero_le _, fun _ o ho => nomatch ho⟩
  | visited before decided visit ih =>
    constructor
    · rw [List.length_append, List.length_singleton]
      cases p.form.next_decides decided with
      | first operand => exact (List.getElem?_eq_some_iff.1 operand).1
      | more _ _ later operand =>
        exact Nat.succ_le_of_lt (Nat.lt_of_le_of_lt later (List.getElem?_eq_some_iff.1 operand).1)
      | catches _ _ operand => exact (List.getElem?_eq_some_iff.1 operand).1
    · intro uncaught o ho
      rw [List.dropLast_concat] at ho
      cases p.form.next_decides decided with
      | first operand => cases ho
      | more last succeeded _ _ =>
        obtain ⟨front, rfl⟩ := List.getLast?_eq_some_iff.1 last
        rw [List.mem_append, List.mem_singleton] at ho
        obtain ho | rfl := ho
        · exact ih.succeeded uncaught o (by rwa [List.dropLast_concat])
        · exact succeeded
      | catches caught _ _ => exact absurd caught uncaught

/-- A raising node has no operands, so its rule decides as soon as the node was entered. -/
theorem Position.Progress.eq_nil_of_raise {p : Position σ} {os : List Outcome} {r : Run σ}
    (h : p.Progress host os r) {e : Value} (raise : p.form = .raise e) : os = [] := by
  have length_le := h.known.length_le
  rw [raise] at length_le
  exact List.length_eq_zero_iff.1 (Nat.le_zero.1 length_le)

/-- After the outcomes of its operands the rule calls the host, and the host ends with a fault: it
invokes the value of the callee with those of the arguments, or it tests the truth of the first
value. -/
inductive Form.HostFails (host : Host σ) (w : World σ) :
    Form → List Outcome → FaultRef → World σ → Prop
  | invocation {callee args : Value} {first : Outcome} {more : List Outcome} {c w'}
      (complete : more.length = args.tupleItems.length)
      (succeeded : ∀ o ∈ first :: more, o.isRaised = false)
      (callable : first.value.isCallable = true)
      (failed : (invoke host first.value (more.map Outcome.value)).runOn w = (.error c, w')) :
      HostFails host w (.call callee args) (first :: more) c w'
  | operatorTest {lhs rhs v : Value} {o : Outcome} {c w'} (succeeded : o.result = .success v)
      (failed : (truthTest host v).runOn w = (.error c, w')) :
      HostFails host w (.fallback .onFalse lhs rhs) [o] c w'
  | choiceTest {condition thenBranch elseBranch v : Value} {o : Outcome} {c w'}
      (succeeded : o.result = .success v) (failed : (truthTest host v).runOn w = (.error c, w')) :
      HostFails host w (.ternary condition thenBranch elseBranch) [o] c w'

/-- The faults that the guard of a form lets through. -/
def Form.letsThrough : Form → FaultKind → Bool
  | .call _ _ => FaultKind.escapesCall
  | _ => fun k => !k.isOrdinary

/-- The message of the failed call that the guard of a form makes of a fault with some text. -/
def Form.failureText : Form → String → String
  | .call _ _ => id
  | _ => ("truth test failed: " ++ ·)

/-- The guard around the calls of the host that the rule of a form makes. -/
def Form.guard (f : Form) (c : FaultRef) : Act σ FaultRef :=
  guardFault f.letsThrough f.failureText c

theorem runOn_nextOnTruth_of_error {v : Value} {c : FaultRef} {r : Run σ} {w : World σ}
    (failed : (truthTest host v).runOn r.world = (.error c, w)) (onTrue onFalse : Move) :
    (nextOnTruth host v onTrue onFalse).runOn r =
      (do return .finish (← Eval.ofAct (do Act.raised (.fault (← guardTest c)))) :
        Eval σ Move).runOn { r with world := w } := by
  rw [nextOnTruth, Work.runOn_bind, Eval.runOn_ofAct, runOn_truthOrFailure, failed]
  dsimp only
  rw [Work.runOn_bind, Work.runOn_bind, Eval.runOn_ofAct, Work.runOn_bind]
  rcases (guardTest c).runOn w with ⟨e | x, w'⟩ <;> rfl

theorem runOn_finish_congr {x y : Act σ Outcome} {frame : Frame} {w w' : World σ}
    (h : x.runOn w = y.runOn w') :
    (do return .finish (← Eval.ofAct x) : Eval σ Move).runOn ⟨frame, w⟩ =
      (do return .finish (← Eval.ofAct y) : Eval σ Move).runOn ⟨frame, w'⟩ := by
  rw [Work.runOn_bind, Work.runOn_bind, Eval.runOn_ofAct, Eval.runOn_ofAct, h]

theorem nextOfCall_of_complete {callee : Value} {items : List Value} {first : Outcome}
    {more : List Outcome} (succeeded : (more.getLastD first).isRaised = false)
    (complete : items.length ≤ more.length) :
    nextOfCall host callee items (first :: more) = (do
      return .finish (← Eval.ofAct (callValue host first.value (more.map Outcome.value)))) := by
  have none : items[more.length]? = none := List.getElem?_eq_none complete
  simp only [nextOfCall]
  split
  · next e he =>
    rw [Outcome.isRaised, he] at succeeded
    cases succeeded
  · rw [none]

/-- A call whose callee was evaluated hands on what was raised, visits the next argument or has all
the outcomes that it needs. -/
theorem nextOfCall_cons_cases (host : Host σ) (callee : Value) (items : List Value)
    (first : Outcome) (more : List Outcome) :
    nextOfCall host callee items (first :: more) = pure (.keep (more.getLastD first)) ∨
    (∃ i v, nextOfCall host callee items (first :: more) = pure (.visit i v)) ∨
    ((more.getLastD first).isRaised = false ∧ items.length ≤ more.length) := by
  simp only [nextOfCall]
  split
  · exact .inl rfl
  · next v hv =>
    split
    · exact .inr (.inl ⟨_, _, rfl⟩)
    · next none =>
      refine .inr (.inr ⟨?_, List.getElem?_eq_none_iff.1 none⟩)
      rw [Outcome.isRaised, hv]

/-- An operator makes a move that is settled, or asks for a truth, or falls back and writes it
down. -/
theorem nextOfFallback_cases (host : Host σ) (op : Operator) (lhs rhs : Value)
    (os : List Outcome) :
    (∃ m, nextOfFallback host op lhs rhs os = pure m ∧ ∀ o, m ≠ .finish o) ∨
    (∃ self v, op = .onFalse ∧ os = [⟨self, .success v⟩] ∧
      nextOfFallback host op lhs rhs os =
        nextOnTruth host v (.keep ⟨self, .success v⟩) (.visit 1 rhs)) ∨
    ∃ self e, op = .onFault ∧ os = [⟨self, .raised e⟩] ∧
      nextOfFallback host op lhs rhs os = do
        debug host fun f => .fallingBack f.depth
        return .visit 1 rhs := by
  rcases os with _ | ⟨⟨self, v | e⟩, _ | ⟨second, more⟩⟩
  · exact .inl ⟨_, rfl, by simp⟩
  · cases op with
    | onFault => exact .inl ⟨_, rfl, by simp⟩
    | onNull =>
      refine .inl ⟨_, rfl, fun o => ?_⟩
      cases v.isNull <;> simp
    | onFalse => exact .inr (.inl ⟨self, v, rfl, rfl, rfl⟩)
  · exact .inl ⟨_, rfl, by simp⟩
  · cases op with
    | onFault => exact .inr (.inr ⟨self, e, rfl, rfl, rfl⟩)
    | onNull => exact .inl ⟨_, rfl, by simp⟩
    | onFalse => exact .inl ⟨_, rfl, by simp⟩
  · exact .inl ⟨_, rfl, by simp⟩

/-- A choice makes a move that is settled, or asks for a truth. -/
theorem nextOfTernary_cases (host : Host σ) (condition thenBranch elseBranch : Value)
    (os : List Outcome) :
    (∃ m, nextOfTernary host condition thenBranch elseBranch os = pure m ∧ ∀ o, m ≠ .finish o) ∨
    ∃ self v, os = [⟨self, .success v⟩] ∧
      nextOfTernary host condition thenBranch elseBranch os =
        nextOnTruth host v (.visit 1 thenBranch) (.visit 2 elseBranch) := by
  rcases os with _ | ⟨⟨self, v | e⟩, _ | ⟨second, more⟩⟩
  · exact .inl ⟨_, rfl, by simp⟩
  · exact .inr ⟨self, v, rfl, rfl⟩
  · exact .inl ⟨_, rfl, by simp⟩
  · exact .inl ⟨_, rfl, by simp⟩
  · exact .inl ⟨_, rfl, by simp⟩

/-- A call that has all the outcomes that it needs has one of success for every operand. -/
theorem Form.Known.of_call {callee args : Value} {first : Outcome} {more : List Outcome}
    (known : (Form.call callee args).Known (first :: more))
    (last : (more.getLastD first).isRaised = false)
    (enough : args.tupleItems.length ≤ more.length) :
    (∀ o ∈ first :: more, o.isRaised = false) ∧ more.length = args.tupleItems.length := by
  have uncaught : ¬(Form.call callee args).Catches 0 := by simp [Form.Catches]
  have before := known.succeeded uncaught
  constructor
  · rcases List.eq_nil_or_concat more with rfl | ⟨some, o, rfl⟩
    · simpa using last
    · rw [List.concat_eq_append, List.getLastD_concat] at last
      rw [List.concat_eq_append, ← List.cons_append, List.dropLast_concat] at before
      intro o' ho'
      rw [List.concat_eq_append, ← List.cons_append, List.mem_append, List.mem_singleton] at ho'
      obtain ho' | rfl := ho'
      · exact before o' ho'
      · exact last
  · have length_le := known.length_le
    simp only [Form.operands, List.length_cons] at length_le
    omega

/-- Where no operand raised a value, the last one did not. -/
theorem isRaised_getLastD {first : Outcome} {more : List Outcome}
    (succeeded : ∀ o ∈ first :: more, o.isRaised = false) :
    (more.getLastD first).isRaised = false := by
  rcases List.eq_nil_or_concat more with rfl | ⟨before, o, rfl⟩
  · exact succeeded first (List.mem_cons_self ..)
  · exact succeeded _ (by simp)

/-- What a rule does next when the host has failed: what the guard makes of the fault is raised. -/
theorem Form.HostFails.next {f : Form} {os : List Outcome} {c : FaultRef} {r : Run σ} {w : World σ}
    (h : f.HostFails host r.world os c w) :
    (f.next host os).runOn r =
      (do return .finish (← Eval.ofAct (do Act.raised (.fault (← f.guard c)))) :
        Eval σ Move).runOn { r with world := w } := by
  obtain ⟨frame, world⟩ := r
  cases h with
  | @invocation callee args first more _ _ complete succeeded callable failed =>
    have last := isRaised_getLastD succeeded
    rw [Form.next, nextOfCall_of_complete last (Nat.le_of_eq complete.symm)]
    refine runOn_finish_congr ?_
    rw [runOn_callValue callable, failed]
    rfl
  | @operatorTest lhs rhs v o _ _ succeeded failed =>
    obtain ⟨self, result⟩ := o
    cases succeeded
    exact runOn_nextOnTruth_of_error failed _ _
  | @choiceTest condition thenBranch elseBranch v o _ _ succeeded failed =>
    obtain ⟨self, result⟩ := o
    cases succeeded
    exact runOn_nextOnTruth_of_error failed _ _

/-! ## Decisions that break off -/

/-- A decision breaks off with a fault: a guard does not make a failed call of the fault that the
host ended with, or a recoverable fault has a way of its own to be copied and that fails, or the
debug switch cannot tell its truth when an operator falls back. -/
inductive Form.Breaks (host : Host σ) (r : Run σ) :
    Form → List Outcome → FaultRef → World σ → Prop
  | guard {f : Form} {os c w e w'} (failed : f.HostFails host r.world os c w)
      (broken : (f.guard c).runOn w = (.error e, w')) : Breaks host r f os e w'
  | copy {x way os e w'} (locatable : (r.world.store.fault x).kind.isLocatable = true)
      (own : r.world.store.attribute? (.fault x) copyName = some way)
      (failed : (invoke host way []).runOn r.world = (.error e, w')) :
      Breaks host r (.raise (.fault x)) os e w'
  | switch {lhs rhs o e w'} (raised : o.isRaised = true)
      (failed : (truthTest host r.frame.debug).runOn r.world = (.error e, w')) :
      Breaks host r (.fallback .onFault lhs rhs) [o] e w'

/-- The way of its own that a fault has to be copied does not depend on where it is placed. -/
theorem Store.attribute?_copyName (s : Store) (x : FaultRef) :
    s.attribute? (.fault x) copyName = Environment.get? (s.fault x).extras copyName := by
  rw [attribute?, attributes, Fault.attributes]
  cases (s.fault x).kind.hasPlace <;> rfl

theorem runOn_copyOf (x : FaultRef) (w : World σ) :
    (copyOf host x).runOn w =
      match w.store.attribute? (.fault x) copyName with
      | some way => (invoke host way []).runOn w
      | none =>
        (.ok (.fault ⟨w.store.faults.size⟩),
          { w with store := (w.store.addFault (w.store.fault x)).2 }) := by
  rw [copyOf, Work.runOn_bind_ok (Act.runOn_store w)]
  cases w.store.attribute? (.fault x) copyName <;> rfl

theorem runOn_evalRaise (x : FaultRef) (w : World σ) :
    (evalRaise host (.fault x)).runOn w =
      if (w.store.fault x).kind.isLocatable then
        (do Act.raised (← copyOf host x) : Act σ Outcome).runOn w
      else (Act.raised (.fault x)).runOn w := by
  rw [evalRaise, Work.runOn_bind_ok (Act.runOn_store w)]
  cases (w.store.fault x).kind.isLocatable <;> rfl

theorem runOn_make (x : Act σ Outcome) (r : Run σ) :
    (do return .finish (← Eval.ofAct x) : Eval σ Move).runOn r =
      (Move.finish <$> (x.runOn r.world).1, { r with world := (x.runOn r.world).2 }) := by
  rw [Work.runOn_bind, Eval.runOn_ofAct]
  rcases x.runOn r.world with ⟨e | o, w⟩ <;> rfl

theorem runOn_make_eq_error {x : Act σ Outcome} {e : FaultRef} {r r' : Run σ} :
    (do return .finish (← Eval.ofAct x) : Eval σ Move).runOn r = (.error e, r') ↔
      x.runOn r.world = (.error e, r'.world) ∧ r'.frame = r.frame := by
  obtain ⟨frame, world⟩ := r
  obtain ⟨frame', world'⟩ := r'
  rw [Work.runOn_bind, Eval.runOn_ofAct]
  dsimp only
  rcases x.runOn world with ⟨e' | o, w⟩
  · constructor
    · intro h
      cases h
      exact ⟨rfl, rfl⟩
    · rintro ⟨h, rfl⟩
      cases h
      rfl
  · constructor
    · intro h
      cases h
    · rintro ⟨h, -⟩
      cases h

theorem runOn_make_eq_ok {x : Act σ Outcome} {o : Outcome} {r r' : Run σ} :
    (do return .finish (← Eval.ofAct x) : Eval σ Move).runOn r = (.ok (.finish o), r') ↔
      x.runOn r.world = (.ok o, r'.world) ∧ r'.frame = r.frame := by
  obtain ⟨frame, world⟩ := r
  obtain ⟨frame', world'⟩ := r'
  rw [Work.runOn_bind, Eval.runOn_ofAct]
  dsimp only
  rcases x.runOn world with ⟨e' | o, w⟩
  · constructor
    · intro h
      cases h
    · rintro ⟨h, -⟩
      cases h
  · constructor
    · intro h
      cases h
      exact ⟨rfl, rfl⟩
    · rintro ⟨h, rfl⟩
      cases h
      rfl

theorem runOn_success_eq_ok {v : Value} {o : Outcome} {w w' : World σ}
    (h : (Act.success v : Act σ Outcome).runOn w = (.ok o, w')) : o.result = .success v := by
  cases h
  rfl

/-- An outcome that was made to raise a value raises it, and nothing happens to the faults. -/
theorem runOn_raised_eq_ok {v e : Value} {o : Outcome} {w w' : World σ}
    (h : (Act.raised v : Act σ Outcome).runOn w = (.ok o, w')) (raised : o.result = .raised e) :
    v = e ∧ ∀ x, w'.store.fault x = w.store.fault x := by
  cases h
  cases raised
  exact ⟨rfl, fun _ => rfl⟩

/-- Raising what some work makes breaks off as the work does. -/
theorem runOn_raised_eq_error {x : Act σ Value} {e : FaultRef} {w w' : World σ} :
    (do Act.raised (← x) : Act σ Outcome).runOn w = (.error e, w') ↔
      x.runOn w = (.error e, w') := by
  constructor
  · intro h
    obtain h | ⟨v, w₁, -, h⟩ := Work.runOn_bind_eq_error.1 h
    · exact h
    · cases h
  · intro h
    exact Work.runOn_bind_error h _

theorem Form.Breaks.next {f : Form} {os : List Outcome} {e : FaultRef} {r : Run σ} {w : World σ}
    (h : f.Breaks host r os e w) :
    (f.next host os).runOn r = (.error e, { r with world := w }) := by
  cases h with
  | guard failed broken =>
    rw [failed.next]
    exact runOn_make_eq_error.2 ⟨Work.runOn_bind_error broken _, rfl⟩
  | @copy x way os _ _ locatable own failed =>
    refine runOn_make_eq_error.2 ⟨?_, rfl⟩
    rw [runOn_evalRaise, if_pos locatable, runOn_raised_eq_error, runOn_copyOf, own]
    exact failed
  | @switch lhs rhs o _ _ raised failed =>
    obtain ⟨self, result⟩ := o
    cases result with
    | success v => cases raised
    | raised e' =>
      refine Work.runOn_bind_error ?_ _
      rw [runOn_debug, failed]

theorem nextOnTruth_eq_error {v : Value} {onTrue onFalse : Move} {e : FaultRef} {r r' : Run σ}
    (h : (nextOnTruth host v onTrue onFalse).runOn r = (.error e, r')) :
    ∃ c w, (truthTest host v).runOn r.world = (.error c, w) ∧
      (guardTest c).runOn w = (.error e, r'.world) := by
  rcases tested : (truthTest host v).runOn r.world with ⟨c | b, w⟩
  · rw [runOn_nextOnTruth_of_error tested, runOn_make_eq_error] at h
    obtain h | ⟨x, w₁, -, h⟩ := Work.runOn_bind_eq_error.1 h.1
    · exact ⟨c, w, rfl, h⟩
    · cases h
  · rw [nextOnTruth, Work.runOn_bind, Eval.runOn_ofAct, runOn_truthOrFailure, tested] at h
    cases h

theorem nextOfCall_eq_error {callee args : Value} {os : List Outcome} {e : FaultRef}
    {r r' : Run σ} (known : (Form.call callee args).Known os)
    (h : (nextOfCall host callee args.tupleItems os).runOn r = (.error e, r')) :
    (Form.call callee args).Breaks host r os e r'.world := by
  rcases os with _ | ⟨first, more⟩
  · cases h
  · obtain kept | ⟨i, v, visited⟩ | ⟨last, enough⟩ :=
      nextOfCall_cons_cases host callee args.tupleItems first more
    · rw [kept] at h
      cases h
    · rw [visited] at h
      cases h
    · obtain ⟨succeeded, complete⟩ := known.of_call last enough
      rw [nextOfCall_of_complete last enough, runOn_make_eq_error] at h
      obtain ⟨h, -⟩ := h
      cases callable : first.value.isCallable with
      | true =>
        rw [runOn_callValue callable] at h
        rcases failed : (invoke host first.value (more.map Outcome.value)).runOn r.world
          with ⟨c | v, w⟩
        · rw [failed] at h
          obtain h | ⟨x, w₁, -, h⟩ := Work.runOn_bind_eq_error.1 h
          · exact .guard (.invocation complete succeeded callable failed) h
          · cases h
        · rw [failed] at h
          cases h
      | false =>
        obtain ⟨c, s, named, -, made⟩ := runOn_callValue_of_not_callable callable
          (more.map Outcome.value) r.world
        rw [made] at h
        cases h

/-- Looking up a name that is a text never breaks off. -/
theorem runOn_lookup_ne_error {vars : Environment} {name : Value} {t : String} {w w' : World σ}
    {e : FaultRef} (named : w.store.text? name = some t) :
    (lookup vars name : Act σ Outcome).runOn w ≠ (.error e, w') := by
  intro h
  rw [runOn_lookup named] at h
  cases bound : vars.get? t with
  | none =>
    rw [bound] at h
    cases h
  | some v =>
    rw [bound] at h
    cases h

theorem evalRaise_eq_error {x : FaultRef} {os : List Outcome} {e : FaultRef} {r : Run σ}
    {w' : World σ} (h : (evalRaise host (.fault x)).runOn r.world = (.error e, w')) :
    (Form.raise (.fault x)).Breaks host r os e w' := by
  rw [runOn_evalRaise] at h
  split at h
  · next locatable =>
    rw [runOn_raised_eq_error, runOn_copyOf] at h
    cases own : r.world.store.attribute? (.fault x) copyName with
    | none =>
      rw [own] at h
      cases h
    | some way =>
      rw [own] at h
      exact .copy locatable own h
  · cases h

theorem nextOfFallback_eq_error {op : Operator} {lhs rhs : Value} {os : List Outcome}
    {e : FaultRef} {r r' : Run σ}
    (h : (nextOfFallback host op lhs rhs os).runOn r = (.error e, r')) :
    (Form.fallback op lhs rhs).Breaks host r os e r'.world := by
  obtain ⟨m, settled, -⟩ | ⟨self, v, rfl, rfl, asked⟩ | ⟨self, x, rfl, rfl, falls⟩ :=
    nextOfFallback_cases host op lhs rhs os
  · rw [settled] at h
    cases h
  · rw [asked] at h
    obtain ⟨c, w, failed, broken⟩ := nextOnTruth_eq_error h
    exact .guard (.operatorTest rfl failed) broken
  · rw [falls] at h
    obtain h | ⟨u, r₁, -, h⟩ := Work.runOn_bind_eq_error.1 h
    · rw [runOn_debug] at h
      rcases failed : (truthTest host r.frame.debug).runOn r.world with ⟨c | b, w⟩
      · rw [failed] at h
        cases h
        exact .switch rfl failed
      · rw [failed] at h
        cases h
    · cases h

theorem nextOfTernary_eq_error {condition thenBranch elseBranch : Value} {os : List Outcome}
    {e : FaultRef} {r r' : Run σ}
    (h : (nextOfTernary host condition thenBranch elseBranch os).runOn r = (.error e, r')) :
    (Form.ternary condition thenBranch elseBranch).Breaks host r os e r'.world := by
  obtain ⟨m, settled, -⟩ | ⟨self, v, rfl, asked⟩ :=
    nextOfTernary_cases host condition thenBranch elseBranch os
  · rw [settled] at h
    cases h
  · rw [asked] at h
    obtain ⟨c, w, failed, broken⟩ := nextOnTruth_eq_error h
    exact .guard (.choiceTest rfl failed) broken

/-- A decision breaks off in no other way. -/
theorem Form.breaks_of_next {f : Form} {os : List Outcome} {e : FaultRef} {r r' : Run σ}
    (fit : f.IsFit r.world.store) (known : f.Known os)
    (h : (f.next host os).runOn r = (.error e, r')) : f.Breaks host r os e r'.world := by
  cases f with
  | literal v => cases h
  | reference name =>
    obtain ⟨⟨t, named, -⟩, -⟩ := fit
    have looked : (do return Move.finish (← Eval.ofAct (lookup r.frame.vars name)) :
        Eval σ Move).runOn r = (.error e, r') := h
    exact absurd (runOn_make_eq_error.1 looked).1 (runOn_lookup_ne_error named)
  | raise exception =>
    obtain ⟨x, rfl, -⟩ := fit
    exact evalRaise_eq_error (runOn_make_eq_error.1 h).1
  | call callee args => exact nextOfCall_eq_error known h
  | fallback op lhs rhs => exact nextOfFallback_eq_error h
  | ternary condition thenBranch elseBranch => exact nextOfTernary_eq_error h

/-! ## Decisions that raise -/

/-- A rule makes an outcome that raises a value: of a name that is not bound, of a raising node, of
something called that cannot be, or of a call of the host that failed. -/
inductive Form.Raises (host : Host σ) (r : Run σ) :
    Form → List Outcome → Value → World σ → Prop
  | unbound {name t os x w'} (named : r.world.store.text? name = some t)
      (free : r.frame.vars.get? t = none) (kind : (w'.store.fault x).kind = .unboundName) :
      Raises host r (.reference name) os (.fault x) w'
  | held {x os w'} (fixed : (r.world.store.fault x).kind.isLocatable = false) :
      Raises host r (.raise (.fault x)) os (.fault x) w'
  | copied {x os e w w'} (locatable : (r.world.store.fault x).kind.isLocatable = true)
      (copy : (copyOf host x).runOn r.world = (.ok e, w)) :
      Raises host r (.raise (.fault x)) os e w'
  | notCallable {callee args : Value} {first : Outcome} {more : List Outcome} {x w'}
      (complete : more.length = args.tupleItems.length)
      (succeeded : ∀ o ∈ first :: more, o.isRaised = false)
      (uncallable : first.value.isCallable = false)
      (kind : (w'.store.fault x).kind = .failedCall) :
      Raises host r (.call callee args) (first :: more) (.fault x) w'
  | hostFailed {f : Form} {os c w x w'} (failed : f.HostFails host r.world os c w)
      (kind : (w'.store.fault x).kind = .failedCall)
      (cause : (w'.store.fault x).cause? = some (.fault c)) : Raises host r f os (.fault x) w'

theorem Attempt.fault_withFailedCall (s : Store) (c : FaultRef) (message : String) :
    (withFailedCall s c message).fault ⟨s.faults.size⟩ =
      callFault (.fault c) (.str message s.nextStamp) (s.nextStamp + 1) :=
  Store.fault_addFault_self _ _

/-- What a guard makes of a fault is a failed call with that fault as its cause. -/
theorem runOn_guardFault_eq_ok {letsThrough : FaultKind → Bool} {message : String → String}
    {c x : FaultRef} {w w' : World σ}
    (h : (guardFault letsThrough message c).runOn w = (.ok x, w')) :
    (w'.store.fault x).kind = .failedCall ∧ (w'.store.fault x).cause? = some (.fault c) := by
  rw [guardFault, Work.runOn_ofRun] at h
  split at h
  · cases h
  · split at h
    · cases h
      dsimp only
      rw [Attempt.fault_withFailedCall]
      exact ⟨rfl, rfl⟩
    · cases h

/-- Where the host has failed, the rule raises the failed call that the guard makes. -/
theorem Form.HostFails.raises {f : Form} {os : List Outcome} {c : FaultRef} {r r' : Run σ}
    {w : World σ} {o : Outcome} {e : Value} (failed : f.HostFails host r.world os c w)
    (h : (f.next host os).runOn r = (.ok (.finish o), r')) (raised : o.result = .raised e) :
    f.Raises host r os e r'.world := by
  rw [failed.next] at h
  obtain ⟨made, -⟩ := runOn_make_eq_ok.1 h
  obtain ⟨x, w₁, guarded, made⟩ := Work.runOn_bind_eq_ok.1 made
  obtain ⟨kind, cause⟩ := runOn_guardFault_eq_ok guarded
  obtain ⟨rfl, same⟩ := runOn_raised_eq_ok made raised
  rw [← same x] at kind cause
  exact .hostFailed failed kind cause

theorem nextOnTruth_raises {f : Form} {os : List Outcome} {v : Value} {onTrue onFalse : Move}
    {o : Outcome} {e : Value} {r r' : Run σ}
    (asks : f.next host os = nextOnTruth host v onTrue onFalse)
    (onTrue_ne : onTrue ≠ .finish o) (onFalse_ne : onFalse ≠ .finish o)
    (fails : ∀ {c w}, (truthTest host v).runOn r.world = (.error c, w) →
      f.HostFails host r.world os c w)
    (h : (f.next host os).runOn r = (.ok (.finish o), r')) (raised : o.result = .raised e) :
    f.Raises host r os e r'.world := by
  rcases tested : (truthTest host v).runOn r.world with ⟨c | b, w⟩
  · exact (fails tested).raises h raised
  · rw [asks, nextOnTruth, Work.runOn_bind, Eval.runOn_ofAct, runOn_truthOrFailure, tested] at h
    cases b with
    | true =>
      cases h
      exact absurd rfl onTrue_ne
    | false =>
      cases h
      exact absurd rfl onFalse_ne

theorem nextOfCall_raises {callee args : Value} {os : List Outcome} {o : Outcome} {e : Value}
    {r r' : Run σ} (known : (Form.call callee args).Known os)
    (h : (nextOfCall host callee args.tupleItems os).runOn r = (.ok (.finish o), r'))
    (raised : o.result = .raised e) : (Form.call callee args).Raises host r os e r'.world := by
  have decision := h
  rcases os with _ | ⟨first, more⟩
  · cases h
  · obtain kept | ⟨i, v, visited⟩ | ⟨last, enough⟩ :=
      nextOfCall_cons_cases host callee args.tupleItems first more
    · rw [kept] at h
      cases h
    · rw [visited] at h
      cases h
    · obtain ⟨succeeded, complete⟩ := known.of_call last enough
      rw [nextOfCall_of_complete last enough, runOn_make_eq_ok] at h
      obtain ⟨h, -⟩ := h
      cases callable : first.value.isCallable with
      | true =>
        rw [runOn_callValue callable] at h
        rcases failed : (invoke host first.value (more.map Outcome.value)).runOn r.world
          with ⟨c | v, w⟩
        · have fails : (Form.call callee args).HostFails host r.world (first :: more) c w :=
            .invocation complete succeeded callable failed
          exact fails.raises decision raised
        · rw [failed] at h
          rw [runOn_success_eq_ok h] at raised
          cases raised
      | false =>
        obtain ⟨c, s, named, -, made⟩ := runOn_callValue_of_not_callable callable
          (more.map Outcome.value) r.world
        rw [made] at h
        obtain ⟨rfl, same⟩ := runOn_raised_eq_ok h raised
        refine .notCallable complete succeeded callable ?_
        rw [same]
        show ((Attempt.withFailedCall s c named).fault ⟨s.faults.size⟩).kind = .failedCall
        rw [Attempt.fault_withFailedCall]
        rfl

/-- Looking up a name that is a text raises a value only if the name is not bound. -/
theorem lookup_raises {name : Value} {t : String} {os : List Outcome} {o : Outcome} {e : Value}
    {r : Run σ} {w' : World σ} (named : r.world.store.text? name = some t)
    (h : (lookup r.frame.vars name).runOn r.world = (.ok o, w')) (raised : o.result = .raised e) :
    (Form.reference name).Raises host r os e w' := by
  rw [runOn_lookup named] at h
  cases bound : r.frame.vars.get? t with
  | none =>
    rw [bound] at h
    obtain ⟨rfl, same⟩ := runOn_raised_eq_ok h raised
    refine .unbound named bound ?_
    rw [same]
    exact congrArg Fault.kind (Store.fault_addFault_self _ _)
  | some v =>
    rw [bound] at h
    rw [runOn_success_eq_ok h] at raised
    cases raised

theorem evalRaise_raises {x : FaultRef} {os : List Outcome} {o : Outcome} {e : Value} {r : Run σ}
    {w' : World σ} (h : (evalRaise host (.fault x)).runOn r.world = (.ok o, w'))
    (raised : o.result = .raised e) : (Form.raise (.fault x)).Raises host r os e w' := by
  rw [runOn_evalRaise] at h
  split at h
  · next locatable =>
    obtain ⟨v, w, copied, h⟩ := Work.runOn_bind_eq_ok.1 h
    obtain ⟨rfl, -⟩ := runOn_raised_eq_ok h raised
    exact .copied locatable copied
  · next fixed =>
    obtain ⟨rfl, -⟩ := runOn_raised_eq_ok h raised
    exact .held (by simpa using fixed)

theorem nextOfFallback_raises {op : Operator} {lhs rhs : Value} {os : List Outcome} {o : Outcome}
    {e : Value} {r r' : Run σ}
    (h : (nextOfFallback host op lhs rhs os).runOn r = (.ok (.finish o), r'))
    (raised : o.result = .raised e) : (Form.fallback op lhs rhs).Raises host r os e r'.world := by
  obtain ⟨m, settled, moves⟩ | ⟨self, v, rfl, rfl, asked⟩ | ⟨self, x, rfl, rfl, falls⟩ :=
    nextOfFallback_cases host op lhs rhs os
  · rw [settled] at h
    cases h
    exact absurd rfl (moves o)
  · exact nextOnTruth_raises asked (by simp) (by simp) (fun failed => .operatorTest rfl failed) h
      raised
  · rw [falls] at h
    obtain ⟨u, r₁, -, h⟩ := Work.runOn_bind_eq_ok.1 h
    cases h

theorem nextOfTernary_raises {condition thenBranch elseBranch : Value} {os : List Outcome}
    {o : Outcome} {e : Value} {r r' : Run σ}
    (h : (nextOfTernary host condition thenBranch elseBranch os).runOn r = (.ok (.finish o), r'))
    (raised : o.result = .raised e) :
    (Form.ternary condition thenBranch elseBranch).Raises host r os e r'.world := by
  obtain ⟨m, settled, moves⟩ | ⟨self, v, rfl, asked⟩ :=
    nextOfTernary_cases host condition thenBranch elseBranch os
  · rw [settled] at h
    cases h
    exact absurd rfl (moves o)
  · exact nextOnTruth_raises asked (by simp) (by simp) (fun failed => .choiceTest rfl failed) h
      raised

/-- A rule makes an outcome that raises a value in no other way. -/
theorem Form.raises_of_next {f : Form} {os : List Outcome} {o : Outcome} {e : Value} {r r' : Run σ}
    (fit : f.IsFit r.world.store) (known : f.Known os)
    (h : (f.next host os).runOn r = (.ok (.finish o), r')) (raised : o.result = .raised e) :
    f.Raises host r os e r'.world := by
  cases f with
  | literal v =>
    cases h
    cases raised
  | reference name =>
    obtain ⟨⟨t, named, -⟩, -⟩ := fit
    have looked : (do return Move.finish (← Eval.ofAct (lookup r.frame.vars name)) :
        Eval σ Move).runOn r = (.ok (.finish o), r') := h
    exact lookup_raises named (runOn_make_eq_ok.1 looked).1 raised
  | raise exception =>
    obtain ⟨x, rfl, -⟩ := fit
    exact evalRaise_raises (runOn_make_eq_ok.1 h).1 raised
  | call callee args => exact nextOfCall_raises known h raised
  | fallback op lhs rhs => exact nextOfFallback_raises h raised
  | ternary condition thenBranch elseBranch => exact nextOfTernary_raises h raised

end Fallback
