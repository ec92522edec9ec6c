import Fallback.Chain
import Fallback.Proofs.Abort
import Fallback.Proofs.Agreement
import Fallback.Proofs.Depth

/-!
Chains of one operator, however they are bracketed.

`Store.Bracketing` says that a node is a tree of nodes of one operator over operands in an order,
and `Plain.ChainRuns` is the law of such a chain: the operands are evaluated from left to right,
each at most once, and an operand is evaluated exactly if the one before it was and its outcome is
one that the operator falls back from. The law follows for every bracketing from the fact that an
operator that falls back is associative. For the operator that asks for the truth of a value this
holds only up to `Alike`: in a chain that is nested to the left a value that was found true is asked
again, so truth tests have to be repeatable, and even then the state of the host may tell how often
an object was asked.
-/
namespace Fallback

variable {σ : Type} {host : Host σ} {op : Operator}

/-! ## Truth tests that can be repeated -/

/-- Truth tests can be repeated: an object that has told its truth tells the same when it is asked
again right away, and that leaves the store as it is. -/
def Host.Repeats (host : Host σ) : Prop :=
  ∀ (o : ObjectRef) (b : Bool) (w w₁ : World σ), host.truth o w = (.ok b, w₁) →
    ∃ w₂, host.truth o w₁ = (.ok b, w₂) ∧ w₂.store = w₁.store

/-- The value was found true just before. -/
def World.Confirms (host : Host σ) (w : World σ) (v : Value) : Prop :=
  ∃ u, (truthTest host v).runOn u = (.ok true, w)

section Tests

variable {v : Value} {w : World σ}

/-- What was found true just before is found true again. -/
theorem World.Confirms.again (h : w.Confirms host v) (repeats : host.Repeats) :
    ∃ w', (truthTest host v).runOn w = (.ok true, w') ∧ w'.store = w.store ∧
      w'.Confirms host v := by
  obtain ⟨u, test⟩ := h
  cases v with
  | object r =>
    obtain ⟨w', again, store⟩ := repeats r true u w test
    exact ⟨w', again, store, w, again⟩
  | _ =>
    obtain rfl : u = w := congrArg Prod.snd test
    exact ⟨u, test, rfl, u, test⟩

end Tests

/-! ## Endings that are alike -/

/-- The endings are the same, or the operator asks for the truth of values and both endings have an
outcome whose value was found true just before, with the same store. -/
inductive Alike (host : Host σ) (op : Operator) :
    Ending σ Outcome → Ending σ Outcome → Prop
  | same (q : Ending σ Outcome) : Alike host op q q
  | confirmed {o : Outcome} {v : Value} {w w' : World σ} (operator : op = .onFalse)
      (result : o.result = .success v) (store : w'.store = w.store) (left : w.Confirms host v)
      (right : w'.Confirms host v) : Alike host op (.ok o, w) (.ok o, w')

/-- From every world the two end alike. -/
def Act.Alike (host : Host σ) (op : Operator) (x y : Act σ Outcome) : Prop :=
  ∀ w, Fallback.Alike host op (x.runOn w) (y.runOn w)

section Endings

variable {q q' q'' : Ending σ Outcome} {x y z : Act σ Outcome}

theorem Alike.symm (h : Alike host op q q') : Alike host op q' q := by
  cases h with
  | same => exact .same _
  | confirmed operator result store left right =>
    exact .confirmed operator result store.symm right left

theorem Alike.trans (h : Alike host op q q') (k : Alike host op q' q'') : Alike host op q q'' := by
  cases h with
  | same => exact k
  | confirmed operator result store left right =>
    cases k with
    | same => exact .confirmed operator result store left right
    | confirmed _ result' store' _ right' =>
      cases result.symm.trans result'
      exact .confirmed operator result (store'.trans store) left right'

/-- Endings that are alike have the same result and the same store, and the state of the host is the
same as well unless the operator asks for the truth of values. -/
theorem Alike.ends (h : Alike host op q q') :
    q'.1 = q.1 ∧ q'.2.store = q.2.store ∧ (op ≠ .onFalse → q'.2.host = q.2.host) := by
  cases h with
  | same => exact ⟨rfl, rfl, fun _ => rfl⟩
  | confirmed operator result store left right =>
    exact ⟨rfl, store, fun other => absurd operator other⟩

theorem Act.Alike.refl (x : Act σ Outcome) : Act.Alike host op x x := fun _ => .same _

theorem Act.Alike.trans (h : Act.Alike host op x y) (k : Act.Alike host op y z) :
    Act.Alike host op x z := fun w => (h w).trans (k w)

end Endings

namespace Plain

/-! ## What an operator does with an outcome -/

/-- The operator keeps the outcome of an operand that is not the last one. -/
inductive Keeps (host : Host σ) : Operator → Outcome → World σ → World σ → Prop
  | success {o v w} (result : o.result = .success v) : Keeps host .onFault o w w
  | something {o v w} (result : o.result = .success v) (some : v.isNull = false) :
    Keeps host .onNull o w w
  | true {o v w w'} (result : o.result = .success v)
      (test : (truthTest host v).runOn w = (.ok true, w')) : Keeps host .onFalse o w w'
  | raised {op o e w} (result : o.result = .raised e) (other : op ≠ .onFault) :
    Keeps host op o w w

/-- The operator falls back from the outcome of an operand to the next operand. -/
inductive FallsBack (host : Host σ) : Operator → Outcome → World σ → World σ → Prop
  | raised {o e w} (result : o.result = .raised e) : FallsBack host .onFault o w w
  | null {o w} (result : o.result = .success .null) : FallsBack host .onNull o w w
  | false {o v w w'} (result : o.result = .success v)
      (test : (truthTest host v).runOn w = (.ok false, w')) : FallsBack host .onFalse o w w'

/-- The truth test of the value of an operand ends with a fault. -/
inductive TestFails (host : Host σ) : Operator → Outcome → World σ → FaultRef → World σ → Prop
  | intro {o v w c w'} (result : o.result = .success v)
      (test : (truthTest host v).runOn w = (.error c, w')) : TestFails host .onFalse o w c w'

/-- What an operator does once its left operand has ended with an outcome. -/
def resume (host : Host σ) (op : Operator) (o : Outcome) (rhs : Act σ Outcome) : Act σ Outcome :=
  match op, o.result with
  | .onFault, .success _ => return o
  | .onFault, .raised _ => rhs
  | .onNull, .success v => if v.isNull then rhs else return o
  | .onNull, .raised _ => return o
  | .onFalse, .success v => choose host v (return o) rhs
  | .onFalse, .raised _ => return o

section Operators

variable {o : Outcome} {c : FaultRef} {w w₁ w₂ : World σ} {x x' y y' z : Act σ Outcome}

theorem runOn_fallback (op : Operator) (x y : Act σ Outcome) (w : World σ) :
    (fallback host op x y).runOn w =
      match x.runOn w with
      | (.ok o, w₁) => (resume host op o y).runOn w₁
      | (.error e, w₁) => (.error e, w₁) := by
  show (x >>= fun o => resume host op o y).runOn w = _
  rw [Work.runOn_bind]
  rcases x.runOn w with ⟨e | o, w₁⟩ <;> rfl

theorem runOn_choose (v : Value) (x y : Act σ Outcome) (w : World σ) :
    (choose host v x y).runOn w =
      match (truthTest host v).runOn w with
      | (.ok true, w₁) => x.runOn w₁
      | (.ok false, w₁) => y.runOn w₁
      | (.error c, w₁) => (do Act.raised (.fault (← guardTest c)) : Act σ Outcome).runOn w₁ := by
  rw [choose, Work.runOn_bind, Work.runOn_guarded]
  rcases (truthTest host v).runOn w with ⟨c | b, w₁⟩
  · rfl
  · cases b <;> rfl

/-- An operator keeps an outcome, or falls back from it, or cannot tell. -/
theorem resume_cases (host : Host σ) (op : Operator) (o : Outcome) (w : World σ) :
    (∃ w', Keeps host op o w w') ∨ (∃ w', FallsBack host op o w w') ∨
      ∃ c w', TestFails host op o w c w' := by
  cases result : o.result with
  | raised e =>
    cases op with
    | onFault => exact .inr (.inl ⟨w, .raised result⟩)
    | onNull => exact .inl ⟨w, .raised result nofun⟩
    | onFalse => exact .inl ⟨w, .raised result nofun⟩
  | success v =>
    cases op with
    | onFault => exact .inl ⟨w, .success result⟩
    | onNull =>
      cases null : v.isNull with
      | false => exact .inl ⟨w, .something result null⟩
      | true =>
        cases v with
        | null => exact .inr (.inl ⟨w, .null result⟩)
        | _ => cases null
    | onFalse =>
      rcases test : (truthTest host v).runOn w with ⟨c | b, w'⟩
      · exact .inr (.inr ⟨c, w', .intro result test⟩)
      · cases b with
        | true => exact .inl ⟨w', .true result test⟩
        | false => exact .inr (.inl ⟨w', .false result test⟩)

theorem Keeps.runOn_resume (h : Keeps host op o w w₁) (y : Act σ Outcome) :
    (resume host op o y).runOn w = (.ok o, w₁) := by
  cases h with
  | success result =>
    simp only [resume, result]
    rfl
  | something result some =>
    simp only [resume, result, some]
    rfl
  | true result test => simp only [resume, result, runOn_choose, test, Work.runOn_pure]
  | raised result other =>
    cases op with
    | onFault => exact absurd rfl other
    | onNull | onFalse =>
      simp only [resume, result]
      rfl

theorem FallsBack.runOn_resume (h : FallsBack host op o w w₁) (y : Act σ Outcome) :
    (resume host op o y).runOn w = y.runOn w₁ := by
  cases h with
  | raised result => simp only [resume, result]
  | null result =>
    simp only [resume, result]
    rfl
  | false result test => simp only [resume, result, runOn_choose, test]

theorem TestFails.runOn_resume (h : TestFails host op o w c w₁) (y : Act σ Outcome) :
    (resume host op o y).runOn w =
      (do Act.raised (.fault (← guardTest c)) : Act σ Outcome).runOn w₁ := by
  obtain ⟨result, test⟩ := h
  simp only [resume, result, runOn_choose, test]

/-- What an operator has kept it would keep again. -/
theorem Keeps.again (h : Keeps host op o w w₁) (repeats : op = .onFalse → host.Repeats) :
    ∃ w₂, Keeps host op o w₁ w₂ ∧ Alike host op (.ok o, w₁) (.ok o, w₂) := by
  cases h with
  | success result => exact ⟨w, .success result, .same _⟩
  | something result some => exact ⟨w, .something result some, .same _⟩
  | raised result other => exact ⟨w, .raised result other, .same _⟩
  | true result test =>
    have confirms : w₁.Confirms host _ := ⟨w, test⟩
    obtain ⟨w₂, again, store, confirms'⟩ := confirms.again (repeats rfl)
    exact ⟨w₂, .true result again, .confirmed rfl result store confirms confirms'⟩

/-- An operator over operands that end alike ends alike. -/
theorem fallback_congr (repeats : op = .onFalse → host.Repeats) (hx : Act.Alike host op x x')
    (hy : Act.Alike host op y y') :
    Act.Alike host op (fallback host op x y) (fallback host op x' y') := by
  intro w
  rw [runOn_fallback, runOn_fallback]
  have first := hx w
  revert first
  generalize x.runOn w = q
  generalize x'.runOn w = q'
  intro first
  cases first with
  | same =>
    obtain ⟨e | o, w₁⟩ := q
    · exact .same _
    · obtain ⟨w₂, keeps⟩ | ⟨w₂, falls⟩ | ⟨c, w₂, fails⟩ := resume_cases host op o w₁
      · dsimp only
        rw [keeps.runOn_resume, keeps.runOn_resume]
        exact .same _
      · dsimp only
        rw [falls.runOn_resume, falls.runOn_resume]
        exact hy w₂
      · dsimp only
        rw [fails.runOn_resume, fails.runOn_resume]
        exact .same _
  | @confirmed o v w₁ w₁' operator result store left right =>
    subst operator
    obtain ⟨w₂, test, store₁, left'⟩ := left.again (repeats rfl)
    obtain ⟨w₂', test', store₂, right'⟩ := right.again (repeats rfl)
    dsimp only
    rw [(Keeps.true result test).runOn_resume, (Keeps.true result test').runOn_resume]
    exact .confirmed rfl result (store₂.trans (store.trans store₁.symm)) left' right'

/-- An operator that falls back is associative. -/
theorem fallback_assoc (repeats : op = .onFalse → host.Repeats) (x y z : Act σ Outcome) :
    Act.Alike host op (fallback host op (fallback host op x y) z)
      (fallback host op x (fallback host op y z)) := by
  intro w
  rw [runOn_fallback, runOn_fallback, runOn_fallback]
  rcases x.runOn w with ⟨e | o, w₁⟩
  · exact .same _
  · dsimp only
    obtain ⟨w₂, keeps⟩ | ⟨w₂, falls⟩ | ⟨c, w₂, fails⟩ := resume_cases host op o w₁
    · -- the operator outside asks again for what the one inside has kept
      obtain ⟨w₃, again, alike⟩ := keeps.again repeats
      rw [keeps.runOn_resume, keeps.runOn_resume]
      dsimp only
      rw [again.runOn_resume]
      exact alike.symm
    · rw [falls.runOn_resume, falls.runOn_resume, runOn_fallback]
      exact .same _
    · rw [fails.runOn_resume, fails.runOn_resume]
      obtain ⟨result, test⟩ := fails
      rcases guarded : (guardTest c).runOn w₂ with ⟨e | e, w₃⟩
      · rw [Work.runOn_bind_error guarded]
        exact .same _
      · -- the failed call is raised, so that the operator outside keeps it
        rw [Work.runOn_bind_ok guarded, Act.runOn_raised]
        dsimp only
        have keeps : ∀ {o : Outcome} {u : World σ}, o.result = .raised (.fault e) →
            Keeps host .onFalse o u u := fun raised => .raised raised nofun
        rw [(keeps rfl).runOn_resume]
        exact .same _

end Operators

/-! ## Chains -/

/-- The chain of an operator over some work, nested to the right. Over nothing it would be null. -/
def chain (host : Host σ) (op : Operator) : List (Act σ Outcome) → Act σ Outcome
  | [] => Act.success .null
  | [x] => x
  | x :: y :: more => fallback host op x (chain host op (y :: more))

/-- A chain of two chains is the chain over all operands. -/
theorem chain_append (repeats : op = .onFalse → host.Repeats) {xs ys : List (Act σ Outcome)}
    (hx : xs ≠ []) (hy : ys ≠ []) :
    Act.Alike host op (fallback host op (chain host op xs) (chain host op ys))
      (chain host op (xs ++ ys)) := by
  induction xs with
  | nil => exact absurd rfl hx
  | cons x xs ih =>
    cases xs with
    | nil =>
      cases ys with
      | nil => exact absurd rfl hy
      | cons y ys => exact .refl _
    | cons x' xs =>
      exact (fallback_assoc repeats x _ _).trans
        (fallback_congr repeats (.refl x) (ih (List.cons_ne_nil _ _)))

/-- The law of a chain. From a world the operands are evaluated one after the other, as long as the
operator falls back from their outcomes, and the outcomes of those that were evaluated are given in
order. The chain ends with the outcome of the last operand that was evaluated, or with the fault
that broke it off; and if the truth test of the value of an operand that is not the last one fails,
then an ordinary fault that can be shown is raised as a failed call, and an interruption breaks the
chain off. What comes of a fault that cannot be shown is left open. -/
inductive ChainRuns (host : Host σ) (op : Operator) :
    List (Act σ Outcome) → World σ → List Outcome → Ending σ Outcome → Prop
  | last {x w o w'} (ends : x.runOn w = (.ok o, w')) : ChainRuns host op [x] w [o] (.ok o, w')
  | broken {x more w e w'} (ends : x.runOn w = (.error e, w')) :
    ChainRuns host op (x :: more) w [] (.error e, w')
  | keeps {x y more w o w₁ w'} (ends : x.runOn w = (.ok o, w₁)) (keeps : Keeps host op o w₁ w') :
    ChainRuns host op (x :: y :: more) w [o] (.ok o, w')
  | fallsBack {x y more w o w₁ w₂ os q} (ends : x.runOn w = (.ok o, w₁))
      (falls : FallsBack host op o w₁ w₂) (rest : ChainRuns host op (y :: more) w₂ os q) :
    ChainRuns host op (x :: y :: more) w (o :: os) q
  | failed {x y more w o w₁ c w₂ named} (ends : x.runOn w = (.ok o, w₁))
      (fails : TestFails host op o w₁ c w₂) (ordinary : (w₂.store.fault c).kind.isOrdinary = true)
      (shown : w₂.store.namedText (.fault c) = .ok named) :
    ChainRuns host op (x :: y :: more) w [o]
      ((Act.raised (.fault ⟨w₂.store.faults.size⟩)).runOn
        { w₂ with
          store := Attempt.withFailedCall w₂.store c ("truth test failed: " ++ named) })
  | interrupted {x y more w o w₁ c w₂} (ends : x.runOn w = (.ok o, w₁))
      (fails : TestFails host op o w₁ c w₂)
      (interruption : (w₂.store.fault c).kind.isOrdinary = false) :
    ChainRuns host op (x :: y :: more) w [o] (.error c, w₂)
  | unshown {x y more w o w₁ c w₂ m q} (ends : x.runOn w = (.ok o, w₁))
      (fails : TestFails host op o w₁ c w₂) (ordinary : (w₂.store.fault c).kind.isOrdinary = true)
      (hidden : w₂.store.namedText (.fault c) = .error m) :
    ChainRuns host op (x :: y :: more) w [o] q

/-- No operand is evaluated more than once. -/
theorem ChainRuns.length_le {xs : List (Act σ Outcome)} {w : World σ} {os : List Outcome}
    {q : Ending σ Outcome} (h : ChainRuns host op xs w os q) : os.length ≤ xs.length := by
  induction h with
  | fallsBack _ _ _ ih => exact Nat.succ_le_succ ih
  | _ => simp

/-- A chain keeps the law. -/
theorem chainRuns_chain (host : Host σ) (op : Operator) {xs : List (Act σ Outcome)} (hx : xs ≠ [])
    (w : World σ) : ∃ os, ChainRuns host op xs w os ((chain host op xs).runOn w) := by
  induction xs generalizing w with
  | nil => exact absurd rfl hx
  | cons x xs ih =>
    rcases ends : x.runOn w with ⟨e | o, w₁⟩
    · refine ⟨[], ?_⟩
      cases xs with
      | nil =>
        rw [chain, ends]
        exact .broken ends
      | cons y more =>
        rw [chain, runOn_fallback, ends]
        exact .broken ends
    · cases xs with
      | nil =>
        rw [chain, ends]
        exact ⟨[o], .last ends⟩
      | cons y more =>
        rw [chain, runOn_fallback, ends]
        dsimp only
        obtain ⟨w₂, keeps⟩ | ⟨w₂, falls⟩ | ⟨c, w₂, fails⟩ := resume_cases host op o w₁
        · rw [keeps.runOn_resume]
          exact ⟨[o], .keeps ends keeps⟩
        · rw [falls.runOn_resume]
          obtain ⟨os, rest⟩ := ih (List.cons_ne_nil _ _) w₂
          exact ⟨o :: os, .fallsBack ends falls rest⟩
        · rw [fails.runOn_resume]
          refine ⟨[o], ?_⟩
          cases ordinary : (w₂.store.fault c).kind.isOrdinary with
          | false =>
            have guarded : (guardTest c).runOn w₂ = (.error c, w₂) := by
              rw [guardTest, guardFault, Work.runOn_ofRun, ordinary]
              rfl
            rw [Work.runOn_bind_error guarded]
            exact .interrupted ends fails ordinary
          | true =>
            cases shown : w₂.store.namedText (.fault c) with
            | error m => exact .unshown ends fails ordinary shown
            | ok named =>
              have guarded : (guardTest c).runOn w₂ = (.ok ⟨w₂.store.faults.size⟩,
                  { w₂ with
                    store := Attempt.withFailedCall w₂.store c
                      ("truth test failed: " ++ named) }) := by
                rw [guardTest, guardFault, Work.runOn_ofRun, ordinary, shown]
                rfl
              rw [Work.runOn_bind_ok guarded]
              exact .failed ends fails ordinary shown

end Plain

/-! ## Bracketings -/

/-- The node is a tree of nodes of an operator without a place over some operands in order. What
stands for an operand may be any node, also one of the operator. -/
inductive Store.Bracketing (s : Store) (op : Operator) : NodeRef → List NodeRef → Prop
  | operand (n : NodeRef) : s.Bracketing op n [n]
  | join {n l r : NodeRef} {ls rs : List NodeRef}
      (form : s.form n = .fallback op (.node l) (.node r)) (place : (s.node n).place = .null)
      (left : s.Bracketing op l ls) (right : s.Bracketing op r rs) : s.Bracketing op n (ls ++ rs)

section Bracketings

variable {s t : Store} {n : NodeRef} {ns : List NodeRef}

theorem Store.Bracketing.ne_nil (h : s.Bracketing op n ns) : ns ≠ [] := by
  induction h with
  | operand n => exact List.cons_ne_nil _ _
  | join _ _ _ _ left _ => exact fun nil => left (List.append_eq_nil_iff.1 nil).1

theorem Store.IsBuilt.of_fallback {l r : NodeRef} (built : s.IsBuilt n)
    (form : s.form n = .fallback op (.node l) (.node r)) : s.IsBuilt l ∧ s.IsBuilt r :=
  ⟨built.operand (operand_of_form form (List.mem_cons_self ..)),
    built.operand (operand_of_form form (List.mem_cons_of_mem _ (List.mem_cons_self ..)))⟩

/-- A bracketing of what was built stays one. -/
theorem Store.Bracketing.mono (h : s.Bracketing op n ns) (built : s.IsBuilt n) (le : s ≤ t) :
    t.Bracketing op n ns := by
  induction h with
  | operand n => exact .operand n
  | join form place _ _ left right =>
    have lasts := (le.node built.tree.whole.made).2
    obtain ⟨builtLeft, builtRight⟩ := built.of_fallback form
    refine .join ?_ ?_ (left builtLeft) (right builtRight)
    · rw [Store.form, lasts]
      exact form
    · rw [lasts]
      exact place

/-- The operands of a bracketing that was built were built. -/
theorem Store.Bracketing.built (h : s.Bracketing op n ns) (built : s.IsBuilt n) :
    ∀ m ∈ ns, s.IsBuilt m := by
  induction h with
  | operand n =>
    intro m hm
    rwa [List.mem_singleton.1 hm]
  | join form _ _ _ left right =>
    obtain ⟨builtLeft, builtRight⟩ := built.of_fallback form
    intro m hm
    exact (List.mem_append.1 hm).elim (left builtLeft m) (right builtRight m)

/-- What stands for two lists of values stands for one after the other. -/
theorem Expr.exists_of_showAll_append {vs ws : List Value} {es : List Expr}
    (h : ShowAll s es (vs ++ ws)) :
    ∃ es₁ es₂, es = es₁ ++ es₂ ∧ ShowAll s es₁ vs ∧ ShowAll s es₂ ws := by
  induction vs generalizing es with
  | nil => exact ⟨[], es, rfl, trivial, h⟩
  | cons v vs ih =>
    cases es with
    | nil => exact absurd h id
    | cons e es =>
      obtain ⟨first, rest⟩ := h
      obtain ⟨es₁, es₂, rfl, shows₁, shows₂⟩ := ih rest
      exact ⟨e :: es₁, es₂, rfl, ⟨first, shows₁⟩, shows₂⟩

theorem Expr.length_of_showAll {es : List Expr} (h : ShowAll s es (ns.map .node)) :
    es.length = ns.length := by
  induction es generalizing ns with
  | nil =>
    cases ns with
    | nil => rfl
    | cons n ns => exact absurd h id
  | cons e es ih =>
    cases ns with
    | nil => exact absurd h id
    | cons n ns => exact congrArg Nat.succ (ih h.2)

theorem Store.Bracketing.map_ne_nil {α : Type} (h : s.Bracketing op n ns) {es : List Expr}
    (shows : Expr.ShowAll s es (ns.map .node)) (f : Expr → α) : es.map f ≠ [] := by
  have length := Expr.length_of_showAll shows
  intro nil
  rw [List.map_eq_nil_iff.1 nil] at length
  exact h.ne_nil (List.length_eq_zero_iff.1 length.symm)

/-- No place is attached where there is none. -/
theorem Plain.located_null (x : Act σ Outcome) : located .null x = x := by
  have nothing : ∀ (s : Store) (e : Value), s.attachFirst e [.null] = s := fun s e => by
    cases e <;> rfl
  refine Work.ext fun w => ?_
  rw [located, Work.runOn_bind]
  rcases x.runOn w with ⟨e | ⟨self, result⟩, w₁⟩
  · rfl
  · cases result with
    | success v => rfl
    | raised e =>
      have attached : (attach .null ⟨self, .raised e⟩ : Act σ Unit).runOn w₁ = (.ok (), w₁) := by
        rw [attach, Act.runOn_modifyStore, nothing]
      dsimp only
      rw [Work.runOn_bind_ok attached]
      rfl

/-- A bracketing of operands that stand for expressions stands for an expression, and that means
what the chain of the operands does. -/
theorem Store.Bracketing.exists_shows (h : s.Bracketing op n ns)
    (repeats : op = .onFalse → host.Repeats) (vars : Environment) {es : List Expr}
    (shows : Expr.ShowAll s es (ns.map .node)) :
    ∃ e : Expr, e.Shows s n ∧ Act.Alike host op (e.eval host vars)
      (Plain.chain host op (es.map (·.eval host vars))) := by
  induction h generalizing es with
  | operand n =>
    obtain _ | ⟨e, _ | ⟨e', es⟩⟩ := es
    · exact absurd shows id
    · obtain ⟨⟨m, same, shown⟩, -⟩ := shows
      cases same
      exact ⟨e, shown, .refl _⟩
    · exact absurd shows.2 id
  | join form place left right ihl ihr =>
    rw [List.map_append] at shows
    obtain ⟨es₁, es₂, rfl, shows₁, shows₂⟩ := Expr.exists_of_showAll_append shows
    obtain ⟨e₁, shown₁, alike₁⟩ := ihl shows₁
    obtain ⟨e₂, shown₂, alike₂⟩ := ihr shows₂
    refine ⟨.fallback .null op e₁ e₂, ⟨place, _, _, form, shown₁, shown₂⟩, ?_⟩
    rw [Expr.eval, Plain.located_null, List.map_append]
    exact (Plain.fallback_congr repeats alike₁ alike₂).trans
      (Plain.chain_append repeats (left.map_ne_nil shows₁ _) (right.map_ne_nil shows₂ _))

/-! ## Chains that are built -/

namespace Attempt

/-- An operator is made over two built trees. -/
theorem exists_fallback (op : Operator) {l r : NodeRef} (left : s.IsBuilt l) (right : s.IsBuilt r) :
    ∃ n t, (fallback op (.node l) (.node r) .null).runOn s = (.ok n, t) ∧ s ≤ t ∧ t.IsBuilt n ∧
      t.form n = .fallback op (.node l) (.node r) ∧ (t.node n).place = .null := by
  let form : Form := .fallback op (.node l) (.node r)
  have made : (fallback op (.node l) (.node r) .null).runOn s =
      (.ok (s.addNode ⟨form, .null, []⟩).1, (s.addNode ⟨form, .null, []⟩).2) := rfl
  have node := s.node_addNode_self ⟨form, .null, []⟩
  have built := isBuilt_of_fallback left right made
  refine ⟨_, _, made, built.1, built.2, ?_, ?_⟩
  · rw [Store.form, node]
  · rw [node]

/-- Operands folded to the right are a bracketing of them. -/
theorem exists_foldOnto (op : Operator) {last : NodeRef} {ns : List NodeRef} (hl : s.IsBuilt last)
    (hn : ∀ n ∈ ns, s.IsBuilt n) :
    ∃ n t, (foldOnto (fun lhs rhs => fallback op lhs rhs .null) (.node last)
        (ns.map .node)).runOn s = (.ok (.node n), t) ∧
      s ≤ t ∧ t.IsBuilt n ∧ t.Bracketing op n (ns ++ [last]) := by
  induction ns with
  | nil => exact ⟨last, s, rfl, le_refl _, hl, .operand last⟩
  | cons m ns ih =>
    obtain ⟨rest, t, folded, le, built, bracketing⟩ := ih fun n h => hn n (List.mem_cons_of_mem _ h)
    have first := (hn m (List.mem_cons_self ..)).mono le
    obtain ⟨n, u, made, le', built', form, place⟩ := exists_fallback op first built
    refine ⟨n, u, ?_, le_trans le le', built', ?_⟩
    · rw [List.map_cons, foldOnto, Work.runOn_bind_ok folded, Work.runOn_bind_ok made]
      rfl
    · have joined := Store.Bracketing.join form place (.operand m) (bracketing.mono built le')
      rwa [List.singleton_append] at joined

/-- The chain of two or more built trees can be made, and it is a bracketing of them. -/
theorem exists_chain {ns : List NodeRef} (two : 2 ≤ ns.length) (built : ∀ n ∈ ns, s.IsBuilt n) :
    ∃ n t, (chain op (ns.map .node) .null).runOn s = (.ok (.node n), t) ∧ s ≤ t ∧ t.IsBuilt n ∧
      t.Bracketing op n ns := by
  obtain rfl | ⟨front, last, rfl⟩ := List.eq_nil_or_concat ns
  · cases two
  · rw [List.concat_eq_append] at two built ⊢
    have earlier : ∀ n ∈ front, s.IsBuilt n := fun n h => built n (List.mem_append_left _ h)
    obtain ⟨n, t, folded, le, built', bracketing⟩ :=
      exists_foldOnto op (built last (List.mem_append_right _ (List.mem_cons_self ..)))
        earlier
    refine ⟨n, t, ?_, le, built', bracketing⟩
    have enough : ¬((front ++ [last]).map Value.node).length < 2 := by
      rw [List.length_map]
      omega
    have final : ((front ++ [last]).map Value.node).getLast? = some (.node last) := by simp
    have others : ((front ++ [last]).map Value.node).dropLast = front.map .node := by simp
    have nodes : ∀ v ∈ (front ++ [last]).map Value.node, v.isNode = true :=
      List.forall_mem_map.2 fun _ _ => rfl
    have checked := runOn_requireOperands nodes (.fallback op) .null s
    rw [chain, foldRight, final]
    simp only [enough, if_false]
    rw [Work.runOn_bind_ok checked, others]
    exact folded

end Attempt

end Bracketings

/-! ## Evaluations -/

section Evaluations

variable {q : Request} {root : NodeRef} {ns : List NodeRef} {w : World σ}

/-- An evaluation that does not exceed the limit on the depth ends as the expression means that the
node stands for, however high it is. -/
theorem runOn_evaluate_of_shows (hk : host.KeepsTrees) (hi : host.IgnoresRecords)
    (answers : host.Answers q.options.debugTrace) (built : w.store.IsBuilt root) {e : Expr}
    (shows : e.Shows w.store root) (free : ¬(Position.start q root w).Exceeds host) :
    ((evaluate host q (.node root)).runOn w).1 = ((e.eval host q.environment).runOn w).1 ∧
      ((evaluate host q (.node root)).runOn w).2.Same
        ((e.eval host q.environment).runOn w).2 := by
  let p := Position.start q root w
  have admits : (q.frame.deepen e.height).Admits w.store root e := by
    refine ⟨nofun, ?_⟩
    show 0 + e.height ≤ q.frame.maxDepth + e.height
    omega
  have enough : e.height ≤ q.frame.maxDepth + e.height := Nat.le_add_left _ _
  obtain ⟨r, runs, ends, -, -⟩ :=
    evalNode_agrees hk hi built shows answers admits enough w w (le_refl _) ⟨rfl, rfl⟩
  have deepened : (p.deepen e.height).ending host =
      (((e.eval host q.environment).runOn w).1, r) := runs
  obtain ⟨r₁, rfl, ending⟩ :=
    Position.ending_of_deepen (Position.isSound_start q built.tree) hk free deepened
  rw [Position.runOn_evaluate, ending]
  exact ⟨rfl, ends⟩

/-- A bracketing evaluates as the chain of the expressions that its operands stand for. -/
theorem Store.Bracketing.runOn_evaluate (bracketing : w.store.Bracketing op root ns)
    (hk : host.KeepsTrees) (hi : host.IgnoresRecords)
    (answers : host.Answers q.options.debugTrace) (repeats : op = .onFalse → host.Repeats)
    (built : w.store.IsBuilt root) (free : ¬(Position.start q root w).Exceeds host)
    {es : List Expr} (shows : Expr.ShowAll w.store es (ns.map .node)) :
    let plain := (Plain.chain host op (es.map (·.eval host q.environment))).runOn w
    let ends := (evaluate host q (.node root)).runOn w
    ends.1 = plain.1 ∧ ends.2.store = plain.2.store ∧
      (op ≠ .onFalse → ends.2.host = plain.2.host) := by
  intro plain ends
  obtain ⟨e, shown, alike⟩ := bracketing.exists_shows repeats q.environment shows
  obtain ⟨result, same⟩ := runOn_evaluate_of_shows hk hi answers built shown free
  obtain ⟨result', store, hostState⟩ := (alike w).ends
  exact ⟨result.trans result'.symm, same.store.trans store.symm,
    fun other => same.host.trans (hostState other).symm⟩

/-- The law of chains for every bracketing. Where the limit on the depth is not exceeded, a tree of
nodes of one operator without a place evaluates its operands as the law of the chain says, and ends
as the chain does; the state of the host is the same as well, unless the operator asks for the truth
of values. So all bracketings of the same operands have the same result and leave the same store, in
which every invocation is noted; and the chain that is nested to the right is one of them. -/
theorem runOn_evaluate_of_bracketing (hk : host.KeepsTrees) (hi : host.IgnoresRecords)
    (answers : host.Answers q.options.debugTrace) (repeats : op = .onFalse → host.Repeats)
    (built : w.store.IsBuilt root) (bracketing : w.store.Bracketing op root ns)
    (free : ¬(Position.start q root w).Exceeds host) :
    let ends := (evaluate host q (.node root)).runOn w
    (∃ es, Expr.ShowAll w.store es (ns.map .node)) ∧
    (∀ es, Expr.ShowAll w.store es (ns.map .node) → ∃ os w',
      Plain.ChainRuns host op (es.map (·.eval host q.environment)) w os (ends.1, w') ∧
      os.length ≤ ns.length ∧ ends.2.store = w'.store ∧
      (op ≠ .onFalse → ends.2.host = w'.host)) ∧
    (∀ other, w.store.IsBuilt other → w.store.Bracketing op other ns →
      ¬(Position.start q other w).Exceeds host →
      let ends' := (evaluate host q (.node other)).runOn w
      ends'.1 = ends.1 ∧ ends'.2.store = ends.2.store ∧
        (op ≠ .onFalse → ends'.2.host = ends.2.host)) ∧
    (2 ≤ ns.length → ∃ n t, (Attempt.chain op (ns.map .node) .null).runOn w.store =
      (.ok (.node n), t) ∧ w.store ≤ t ∧ t.IsBuilt n ∧ t.Bracketing op n ns) := by
  intro ends
  have operands := bracketing.built built
  have stand : ∃ es, Expr.ShowAll w.store es (ns.map .node) := by
    refine Expr.exists_showAll fun v hv => ?_
    obtain ⟨m, hm, rfl⟩ := List.mem_map.1 hv
    exact ⟨m, rfl, Expr.exists_shows (operands m hm)⟩
  refine ⟨stand, fun es shows => ?_, fun other built' bracketing' free' => ?_, fun two => ?_⟩
  · obtain ⟨result, store, hostState⟩ :=
      bracketing.runOn_evaluate hk hi answers repeats built free shows
    obtain ⟨os, runs⟩ := Plain.chainRuns_chain host op (bracketing.map_ne_nil shows _) w
    have once := runs.length_le
    rw [List.length_map, Expr.length_of_showAll shows] at once
    exact ⟨os, _, result ▸ runs, once, store, hostState⟩
  · obtain ⟨es, shows⟩ := stand
    obtain ⟨result, store, hostState⟩ :=
      bracketing.runOn_evaluate hk hi answers repeats built free shows
    obtain ⟨result', store', hostState'⟩ :=
      bracketing'.runOn_evaluate hk hi answers repeats built' free' shows
    exact ⟨result'.trans result.symm, store'.trans store.symm,
      fun other => (hostState' other).trans (hostState other).symm⟩
  · exact Attempt.exists_chain two operands

end Evaluations

theorem repeats_idle : Host.idle.Repeats := by
  intro o b w w₁ test
  cases test
  exact ⟨w, rfl, rfl⟩

/-- An operator that asks for the truth of an object, as the left operand of another one. -/
def groupedTree : Attempt NodeRef := do
  let object ← Attempt.node (.literal (.object ⟨0⟩)) .null
  let other ← Attempt.node (.literal .null) .null
  let inner ← Attempt.node (.fallback .onFalse (.node object) (.node other)) .null
  Attempt.node (.fallback .onFalse (.node inner) (.node other)) .null

/-- The world in which the tree was made. -/
def groupedWorld : World Unit :=
  ⟨(groupedTree.runOn Store.empty).2, .empty, #[], ()⟩

theorem isBuilt_groupedWorld : groupedWorld.store.IsBuilt ⟨3⟩ := by
  let s := ((Attempt.node (.literal (.object ⟨0⟩)) .null).runOn Store.empty).2
  let t := ((Attempt.node (.literal .null) .null).runOn s).2
  let u := ((Attempt.node (.fallback .onFalse (.node ⟨0⟩) (.node ⟨1⟩)) .null).runOn t).2
  have first : (Attempt.node (.literal (.object ⟨0⟩)) .null).runOn Store.empty = (.ok ⟨0⟩, s) := rfl
  have second : (Attempt.node (.literal .null) .null).runOn s = (.ok ⟨1⟩, t) := rfl
  have third : (Attempt.node (.fallback .onFalse (.node ⟨0⟩) (.node ⟨1⟩)) .null).runOn t =
      (.ok ⟨2⟩, u) := rfl
  have last : (Attempt.node (.fallback .onFalse (.node ⟨2⟩) (.node ⟨1⟩)) .null).runOn u =
      (.ok ⟨3⟩, groupedWorld.store) := rfl
  have free : ∀ v ∈ (Form.literal (.object ⟨0⟩)).values, Store.empty.Knows v := Store.knows_all rfl
  have free' : ∀ v ∈ (Form.literal .null).values, s.Knows v := Store.knows_all rfl
  obtain ⟨-, object⟩ := Attempt.isBuilt_of_node free nofun first
  obtain ⟨le, other⟩ := Attempt.isBuilt_of_node free' nofun second
  obtain ⟨le', inner⟩ := Attempt.isBuilt_of_fallback (object.mono le) other third
  exact (Attempt.isBuilt_of_fallback inner (other.mono le') last).2

/-- What the operands stand for. -/
def groupedExprs : List Expr :=
  [.literal .null (.object ⟨0⟩), .literal .null .null, .literal .null .null]

/-- The object is true, so neither operator goes on to its other operand, although the outer one
asks the object again. -/
theorem runOn_evaluate_of_grouped :
    let ns : List NodeRef := [⟨0⟩, ⟨1⟩, ⟨1⟩]
    let start := Position.start .standard ⟨3⟩ groupedWorld
    let ends := (evaluate Host.idle .standard (.node ⟨3⟩)).runOn groupedWorld
    Host.idle.KeepsTrees ∧ Host.idle.IgnoresRecords ∧ Host.idle.Repeats ∧
    groupedWorld.store.IsBuilt ⟨3⟩ ∧ groupedWorld.store.Bracketing .onFalse ⟨3⟩ ns ∧
    ¬start.Exceeds Host.idle ∧ Expr.ShowAll groupedWorld.store groupedExprs (ns.map .node) ∧
    ∃ os w', Plain.ChainRuns Host.idle .onFalse (groupedExprs.map (·.eval Host.idle []))
        groupedWorld os (ends.1, w') ∧ os.length ≤ 3 ∧ ends.2.store = w'.store := by
  intro ns start ends
  have built := isBuilt_groupedWorld
  have inner : groupedWorld.store.Bracketing .onFalse ⟨2⟩ [⟨0⟩, ⟨1⟩] :=
    .join rfl rfl (.operand ⟨0⟩) (.operand ⟨1⟩)
  have bracketing : groupedWorld.store.Bracketing .onFalse ⟨3⟩ ns :=
    .join rfl rfl inner (.operand ⟨1⟩)
  have shows : Expr.ShowAll groupedWorld.store groupedExprs (ns.map .node) :=
    ⟨⟨⟨0⟩, rfl, rfl, rfl⟩, ⟨⟨1⟩, rfl, rfl, rfl⟩, ⟨⟨1⟩, rfl, rfl, rfl⟩, trivial⟩
  have ending : start.ending Host.idle =
      (.ok ⟨⟨0⟩, .success (.object ⟨0⟩)⟩, (start.ending Host.idle).2) := Prod.ext rfl rfl
  have free : ¬start.Exceeds Host.idle := Position.not_exceeds_of_ending
    (Position.isSound_start .standard built.tree) keepsTrees_idle ending
  have told : Host.idle.Answers (.bool false) := answers_of_isHosted_eq_false rfl
  obtain ⟨-, law, -⟩ := runOn_evaluate_of_bracketing keepsTrees_idle ignoresRecords_idle
    (q := .standard) told (fun _ => repeats_idle) built bracketing free
  obtain ⟨os, w', runs, once, store, -⟩ := law groupedExprs shows
  exact ⟨keepsTrees_idle, ignoresRecords_idle, repeats_idle, built, bracketing, free, shows, os, w',
    runs, once, store⟩

theorem repeats_stoppingHost : stoppingHost.Repeats := by
  intro o b w w₁ test
  cases test

/-- The world in which an operator that tests an object was made, with an interruption. -/
def stoppedWorld : World Unit :=
  ⟨(testingTree.runOn interruptStore).2, .empty, #[], ()⟩

theorem isBuilt_stoppedWorld : stoppedWorld.store.IsBuilt ⟨1⟩ := by
  have made : testingTree.runOn interruptStore = (.ok ⟨1⟩, stoppedWorld.store) := rfl
  exact Attempt.isBuilt_of_doubled (Store.knows_all rfl) (by decide) made

/-- The evaluation ends with the interruption, and the limit on the depth has nothing to do with
it. -/
theorem not_exceeds_stoppedWorld :
    ¬(Position.start .standard ⟨1⟩ stoppedWorld).Exceeds stoppingHost := by
  rintro ⟨c, reached, deep⟩
  have tree := isBuilt_stoppedWorld.tree
  obtain ⟨report, -⟩ := deep.runOn_evaluate reached keepsTrees_stoppingHost tree
  have result : ((evaluate stoppingHost .standard (.node ⟨1⟩)).runOn stoppedWorld).1 =
      .error ⟨0⟩ := rfl
  rw [report] at result
  have none : c.run.world.store.faults.size = 0 :=
    congrArg FaultRef.index (Except.error.inj result)
  have le : stoppedWorld.store ≤ c.run.world.store :=
    Run.Leads.le reached.leads keepsTrees_stoppingHost
  have some := (le.kind (show (⟨0⟩ : FaultRef).index < stoppedWorld.store.faults.size by decide)).1
  rw [none] at some
  cases some

/-- The truth test of an operand that is not the last one ends with an interruption, and that is no
outcome of the chain but breaks it off. -/
theorem ne_ok_of_interrupted_test :
    stoppingHost.KeepsTrees ∧ stoppingHost.Repeats ∧ stoppedWorld.store.IsBuilt ⟨1⟩ ∧
    stoppedWorld.store.Bracketing .onFalse ⟨1⟩ [⟨0⟩, ⟨0⟩] ∧
    ¬(Position.start .standard ⟨1⟩ stoppedWorld).Exceeds stoppingHost ∧
    stoppedWorld.store.form ⟨0⟩ = .literal (.object ⟨0⟩) ∧
    (∀ w, (truthTest stoppingHost (.object ⟨0⟩)).runOn w = (.error ⟨0⟩, w)) ∧
    ∀ o, ((evaluate stoppingHost .standard (.node ⟨1⟩)).runOn stoppedWorld).1 ≠ .ok o := by
  have bracketing : stoppedWorld.store.Bracketing .onFalse ⟨1⟩ [⟨0⟩, ⟨0⟩] :=
    .join rfl rfl (.operand ⟨0⟩) (.operand ⟨0⟩)
  refine ⟨keepsTrees_stoppingHost, repeats_stoppingHost, isBuilt_stoppedWorld, bracketing,
    not_exceeds_stoppedWorld, rfl, fun _ => rfl, fun o ends => ?_⟩
  cases ends

end Fallback
