import Fallback.Proofs.Limit
import Fallback.Proofs.Respect

/-!
Trees that differ in the faults that they raise.

`Store.Twins` says of a relation between nodes that nodes which it relates are the same but for
their operands, which it relates again, and for the faults that raising nodes hold. `Form.Swaps`
says that these are different ones.

Different faults make different outcomes, but nothing is learned from them: `Value.IsSecret` says
that such a fault is a fresh copy, which is hidden, or is of a kind that is given no place.
`Outcome.Twin` puts such outcomes beside those that are like one another, and all that a rule asks
of an outcome has the same answer for twins. So the rules of twin forms make the same move
(`matches_next`), and nodes that stand for each other are entered and left alike.
-/
namespace Fallback

open List (Forall₂)
open Relation (ReflTransGen TransGen)

variable {σ : Type} {host : Host σ} {L : Likeness σ} {ρ ρ' : Pairing}

/-! ## Twin trees -/

/-- The values are nodes that stand for each other. -/
def Value.Twin (nodes : NodeRef → NodeRef → Prop) (v w : Value) : Prop :=
  ∃ n m, v = .node n ∧ w = .node m ∧ nodes n m

/-- The forms are the same but for the operands, which stand for each other, and for the fault that
a raising node holds. -/
inductive Form.Twin (nodes : NodeRef → NodeRef → Prop) : Form → Form → Prop
  | literal (v : Value) : Twin nodes (.literal v) (.literal v)
  | reference (name : Value) : Twin nodes (.reference name) (.reference name)
  | call {v w : Value} {vs ws : List Value} {stamp stamp' : Nat} (callees : v.Twin nodes w)
    (args : Forall₂ (Value.Twin nodes) vs ws) :
    Twin nodes (.call v (.tuple vs stamp)) (.call w (.tuple ws stamp'))
  | fallback {v w v' w' : Value} (op : Operator) (lefts : v.Twin nodes w)
    (rights : v'.Twin nodes w') : Twin nodes (.fallback op v v') (.fallback op w w')
  | ternary {v w v' w' v'' w'' : Value} (conditions : v.Twin nodes w)
    (thenBranches : v'.Twin nodes w') (elseBranches : v''.Twin nodes w'') :
    Twin nodes (.ternary v v' v'') (.ternary w w' w'')
  | raise (x y : FaultRef) : Twin nodes (.raise (.fault x)) (.raise (.fault y))

/-- The forms raise different faults. -/
def Form.Swaps (f g : Form) : Prop :=
  ∃ x y, x ≠ y ∧ f = .raise (.fault x) ∧ g = .raise (.fault y)

/-- Nodes that stand for each other have twin forms and the same place, and on the way down from
two of them the first node recurs where the second does. -/
structure Store.Twins (s : Store) (nodes : NodeRef → NodeRef → Prop) : Prop where
  form {n m : NodeRef} (h : nodes n m) : (s.form n).Twin nodes (s.form m)
  place {n m : NodeRef} (h : nodes n m) : s.placeOf (.node n) = s.placeOf (.node m)
  recurs {n m n' m' : NodeRef} (h : nodes n m) (h' : nodes n' m') (below : TransGen s.Operand n n')
    (below' : TransGen s.Operand m m') : n = n' ↔ m = m'

theorem Form.Twin.kind {nodes : NodeRef → NodeRef → Prop} {f g : Form} (h : f.Twin nodes g) :
    f.kind = g.kind := by
  cases h <;> rfl

/-! ## Outcomes and moves -/

/-- Nothing is learned from the fault that the value is: it is hidden, or it was made in the store
and is of a kind that is given no place. -/
def Value.IsSecret (s : Store) (hidden : FaultRef → Prop) (e : Value) : Prop :=
  ∃ x, e = .fault x ∧ (hidden x ∨ x.index < s.faults.size ∧ (s.fault x).kind.isLocatable = false)

/-- The outcomes are one and the same. They count and are like one another, or both raise
something of which nothing is learned. -/
inductive Outcome.Twin (s : Store) (ρ : Pairing) (o p : Outcome) : Prop
  | like (h : o.Like ρ p)
  | secret {e f : Value} (self : o.self = p.self) (first : o.result = .raised e)
    (second : p.result = .raised f) (hidden : e.IsSecret s ρ.hidden)
    (hidden' : f.IsSecret s ρ.hidden')

namespace Outcome.Twin

variable {s : Store} {o p : Outcome}

theorem self (h : o.Twin s ρ p) : o.self = p.self := by
  cases h with
  | like h => exact h.self
  | secret self => exact self

theorem mono (h : o.Twin s ρ p) (le : ρ ≤ ρ') : o.Twin s ρ' p := by
  cases h with
  | like h => exact .like (h.mono le)
  | secret self first second hidden hidden' =>
    obtain ⟨x, rfl, why⟩ := hidden
    obtain ⟨y, rfl, why'⟩ := hidden'
    exact .secret self first second ⟨x, rfl, why.imp le.hidden id⟩ ⟨y, rfl, why'.imp le.hidden' id⟩

/-- Both have values that are like one another, or both raise something. -/
theorem cases_result (h : o.Twin s ρ p) :
    (∃ v w, o.result = .success v ∧ p.result = .success w ∧ v.Like ρ w) ∨
      ∃ e f, o.result = .raised e ∧ p.result = .raised f := by
  cases h with
  | secret self first second hidden hidden' => exact .inr ⟨_, _, first, second⟩
  | like h =>
    obtain ⟨self, r⟩ := o
    obtain ⟨self', r'⟩ := p
    obtain ⟨-, -, results⟩ := h
    cases results with
    | success like => exact .inl ⟨_, _, rfl, rfl, like⟩
    | raised like => exact .inr ⟨_, _, rfl, rfl⟩

theorem isRaised (h : o.Twin s ρ p) : o.isRaised = p.isRaised := by
  obtain ⟨v, w, first, second, -⟩ | ⟨e, f, first, second⟩ := h.cases_result
  · rw [Outcome.isRaised, Outcome.isRaised, first, second]
  · rw [Outcome.isRaised, Outcome.isRaised, first, second]

theorem value (h : o.Twin s ρ p) : o.value.Like ρ p.value := by
  obtain ⟨v, w, first, second, like⟩ | ⟨e, f, first, second⟩ := h.cases_result
  · rw [Outcome.value, Outcome.value, first, second]
    exact like
  · rw [Outcome.value, Outcome.value, first, second]
    exact .null

end Outcome.Twin

/-- The rules of two forms make the same move: they visit operands that stand for each other, they
keep twin outcomes, or they finish with like ones. Forms that raise different faults may finish with
twin outcomes of which nothing is learned. -/
inductive Move.Twin (s : Store) (nodes : NodeRef → NodeRef → Prop) (f g : Form) (ρ : Pairing) :
    Move → Move → Prop
  | visit {v w : Value} (slot : Nat) (operands : v.Twin nodes w) :
    Twin s nodes f g ρ (.visit slot v) (.visit slot w)
  | keep {o p : Outcome} (outcomes : o.Twin s ρ p) : Twin s nodes f g ρ (.keep o) (.keep p)
  | finish {o p : Outcome} (outcomes : o.Like ρ p) : Twin s nodes f g ρ (.finish o) (.finish p)
  | secret {o p : Outcome} (swapped : f.Swaps g) (outcomes : o.Twin s ρ p) :
    Twin s nodes f g ρ (.finish o) (.finish p)

theorem Move.Twin.mono {s : Store} {nodes : NodeRef → NodeRef → Prop} {f g : Form} {m m' : Move}
    (h : Move.Twin s nodes f g ρ m m') (le : ρ ≤ ρ') : Move.Twin s nodes f g ρ' m m' := by
  cases h with
  | visit slot operands => exact .visit slot operands
  | keep outcomes => exact .keep (outcomes.mono le)
  | finish outcomes => exact .finish (outcomes.mono le)
  | secret swapped outcomes => exact .secret swapped (outcomes.mono le)

/-! ## Decisions -/

section Decisions

open Work

variable {s : Store} {nodes : NodeRef → NodeRef → Prop} {f g : Form}

/-- A rule that makes an outcome of its own finishes with it. -/
theorem matches_finish {x x' : Act σ Outcome} {r r' : Run σ}
    {R : Pairing → Outcome → Outcome → Prop}
    (h : Matches (World.Like L) ρ R (x.runOn r.world) (x'.runOn r'.world))
    (frames : r.frame.Like ρ r'.frame)
    (finish : ∀ {ρ₁ o p}, R ρ₁ o p → Move.Twin s nodes f g ρ₁ (.finish o) (.finish p)) :
    Matches (Run.Like L) ρ (Move.Twin s nodes f g)
      ((do return .finish (← Eval.ofAct x) : Eval σ Move).runOn r)
      ((do return .finish (← Eval.ofAct x') : Eval σ Move).runOn r') := by
  obtain ⟨ρ₁, le, worlds, ends⟩ := h
  rw [Work.runOn_bind, Work.runOn_bind, Eval.runOn_ofAct, Eval.runOn_ofAct]
  generalize x.runOn r.world = p at worlds ends
  generalize x'.runOn r'.world = p' at worlds ends
  obtain ⟨result, w⟩ := p
  obtain ⟨result', w'⟩ := p'
  cases ends with
  | error paired => exact ⟨ρ₁, le, ⟨worlds, frames.mono le⟩, .error paired⟩
  | ok related => exact ⟨ρ₁, le, ⟨worlds, frames.mono le⟩, .ok (finish related)⟩

/-- A rule that makes a like outcome of its own finishes with it. -/
theorem parallel_finish {x x' : Act σ Outcome}
    (h : Parallel (World.Like L) ρ Outcome.Like x x') :
    Parallel (Run.Like L) ρ (Move.Twin s nodes f g)
      (do return .finish (← Eval.ofAct x) : Eval σ Move)
      (do return .finish (← Eval.ofAct x')) :=
  fun _ le _ _ alike => matches_finish (h le alike.world) alike.frame .finish

theorem parallel_nextOnTruth (respects : host.Respects L) {v w : Value} (like : v.Like ρ w)
    {onTrue onFalse onTrue' onFalse' : Move} (ifTrue : Move.Twin s nodes f g ρ onTrue onTrue')
    (ifFalse : Move.Twin s nodes f g ρ onFalse onFalse') :
    Parallel (Run.Like L) ρ (Move.Twin s nodes f g) (nextOnTruth host v onTrue onFalse)
      (nextOnTruth host w onTrue' onFalse') := by
  refine (Eval.parallel_ofAct (parallel_truthOrFailure respects like)).bind fun le ends => ?_
  cases ends with
  | error paired => exact parallel_finish (Act.parallel_raised (.fault paired))
  | ok same =>
    cases same
    refine .pure fun le' => ?_
    split
    · exact ifTrue.mono (le_trans le le')
    · exact ifFalse.mono (le_trans le le')

/-- The last of twin outcomes are twins. -/
theorem Outcome.Twin.getLastD {o p : Outcome} {os ps : List Outcome} (first : o.Twin s ρ p)
    (all : Forall₂ (Outcome.Twin s ρ) os ps) :
    (os.getLastD o).Twin s ρ (ps.getLastD p) := by
  induction all generalizing o p with
  | nil => exact first
  | cons twin _ ih =>
    rw [List.getLastD_cons, List.getLastD_cons]
    exact ih twin

theorem Outcome.Twin.values {os ps : List Outcome} (all : Forall₂ (Outcome.Twin s ρ) os ps) :
    Value.AllLike ρ (os.map Outcome.value) (ps.map Outcome.value) := by
  induction all with
  | nil => exact .nil
  | cons twin _ ih => exact .cons twin.value ih

/-- Lists of operands that stand for each other have operands in the same slots. -/
theorem Value.Twin.getElem? {vs ws : List Value} (all : Forall₂ (Value.Twin nodes) vs ws)
    (i : Nat) : Option.Rel (Value.Twin nodes) vs[i]? ws[i]? := by
  induction all generalizing i with
  | nil => exact .none
  | cons twin _ ih =>
    cases i with
    | zero => exact .some twin
    | succ i => exact ih i

theorem parallel_nextOfCall (respects : host.Respects L) {v w : Value} {vs ws : List Value}
    (callees : v.Twin nodes w) (args : Forall₂ (Value.Twin nodes) vs ws) {os ps : List Outcome}
    (all : Forall₂ (Outcome.Twin s ρ) os ps) :
    Parallel (Run.Like L) ρ (Move.Twin s nodes f g) (nextOfCall host v vs os)
      (nextOfCall host w ws ps) := by
  cases all with
  | nil => exact .pure fun _ => .visit 0 callees
  | @cons o p os ps first more =>
    have last := first.getLastD more
    obtain ⟨v', w', success, success', -⟩ | ⟨e, e', raised, raised'⟩ := last.cases_result
    · have slots := Value.Twin.getElem? args os.length
      simp only [nextOfCall, success, success', ← more.length_eq]
      generalize vs[os.length]? = arg at slots
      generalize ws[os.length]? = arg' at slots
      cases slots with
      | none =>
        exact parallel_finish (parallel_callValue respects first.value (Outcome.Twin.values more))
      | some operands => exact .pure fun _ => .visit _ operands
    · simp only [nextOfCall, raised, raised']
      exact .pure fun le => .keep (last.mono le)

theorem parallel_nextOfFallback (respects : host.Respects L) (op : Operator) {v w v' w' : Value}
    (lefts : v.Twin nodes w) (rights : v'.Twin nodes w') {os ps : List Outcome}
    (all : Forall₂ (Outcome.Twin s ρ) os ps) :
    Parallel (Run.Like L) ρ (Move.Twin s nodes f g) (nextOfFallback host op v v' os)
      (nextOfFallback host op w w' ps) := by
  rcases all with - | ⟨first, - | ⟨second, more⟩⟩
  · exact .pure fun _ => .visit 0 lefts
  · obtain ⟨u, u', success, success', like⟩ | ⟨e, e', raised, raised'⟩ := first.cases_result
    · cases op with
      | onFault =>
        simp only [nextOfFallback, success, success']
        exact .pure fun le => .keep (first.mono le)
      | onNull =>
        simp only [nextOfFallback, success, success', like.isNull]
        refine .pure fun le => ?_
        split
        · exact .visit 1 rights
        · exact .keep (first.mono le)
      | onFalse =>
        simp only [nextOfFallback, success, success']
        exact parallel_nextOnTruth respects like (.keep first) (.visit 1 rights)
    · cases op with
      | onFault =>
        simp only [nextOfFallback, raised, raised']
        exact (parallel_debug respects fun depth => congrArg LogRecord.fallingBack depth).bind
          fun _ _ => .pure fun _ => .visit 1 rights
      | onNull | onFalse =>
        simp only [nextOfFallback, raised, raised']
        exact .pure fun le => .keep (first.mono le)
  · exact .pure fun le => .keep ((second.getLastD more).mono le)

theorem parallel_nextOfTernary (respects : host.Respects L) {v w v' w' v'' w'' : Value}
    (conditions : v.Twin nodes w) (thenBranches : v'.Twin nodes w')
    (elseBranches : v''.Twin nodes w'') {os ps : List Outcome}
    (all : Forall₂ (Outcome.Twin s ρ) os ps) :
    Parallel (Run.Like L) ρ (Move.Twin s nodes f g) (nextOfTernary host v v' v'' os)
      (nextOfTernary host w w' w'' ps) := by
  rcases all with - | ⟨first, - | ⟨second, more⟩⟩
  · exact .pure fun _ => .visit 0 conditions
  · obtain ⟨u, u', success, success', like⟩ | ⟨e, e', raised, raised'⟩ := first.cases_result
    · simp only [nextOfTernary, success, success']
      exact parallel_nextOnTruth respects like (.visit 1 thenBranches) (.visit 2 elseBranches)
    · simp only [nextOfTernary, raised, raised']
      exact .pure fun le => .keep (first.mono le)
  · exact .pure fun le => .keep ((second.getLastD more).mono le)

/-- The fault has a way of its own to be copied, and would be copied. -/
def Store.CopiesOwnWay (s : Store) (x : FaultRef) : Prop :=
  (s.fault x).kind.isLocatable = true ∧ s.attribute? (.fault x) copyName ≠ none

/-- A fault without a way of its own is raised itself, if it is of a kind that is given no place, or
a copy of it is. -/
theorem runOn_evalRaise_of_plain (host : Host σ) {w : World σ} {x : FaultRef}
    (plain : ¬w.store.CopiesOwnWay x) :
    (w.store.fault x).kind.isLocatable = false ∧
        (evalRaise host (.fault x)).runOn w = (Act.raised (.fault x)).runOn w ∨
      (evalRaise host (.fault x)).runOn w = (Act.raised (.fault ⟨w.store.faults.size⟩)).runOn
        { w with store := (w.store.addFault (w.store.fault x)).2 } := by
  rw [runOn_evalRaise]
  cases locatable : (w.store.fault x).kind.isLocatable with
  | false => exact .inl ⟨rfl, rfl⟩
  | true =>
    have none : w.store.attribute? (.fault x) copyName = none := by
      by_contra own
      exact plain ⟨locatable, own⟩
    rw [if_pos rfl, Work.runOn_bind, runOn_copyOf, none]
    exact .inr rfl

/-- Nothing is learned from faults without a way of their own when they are raised. -/
theorem matches_evalRaise (host : Host σ) {w w' : World σ} (alike : w.Like L ρ w')
    (le : s ≤ w.store) (le' : s ≤ w'.store) {x y : FaultRef} (made : x.index < s.faults.size)
    (made' : y.index < s.faults.size) (plain : ¬w.store.CopiesOwnWay x)
    (plain' : ¬w'.store.CopiesOwnWay y) :
    Matches (World.Like L) ρ (Outcome.Twin s) ((evalRaise host (.fault x)).runOn w)
      ((evalRaise host (.fault y)).runOn w') := by
  obtain ⟨ρ₁, t, e, le₁, alike₁, hidden, first⟩ : ∃ ρ₁ t e, ρ ≤ ρ₁ ∧
      World.Like L ρ₁ { w with store := t } w' ∧ e.IsSecret s ρ₁.hidden ∧
      (evalRaise host (.fault x)).runOn w = (Act.raised e).runOn { w with store := t } := by
    obtain ⟨fixed, same⟩ | copied := runOn_evalRaise_of_plain host plain
    · rw [(le.kind made).2] at fixed
      exact ⟨ρ, _, _, le_refl _, alike, ⟨x, rfl, .inr ⟨made, fixed⟩⟩, same⟩
    · exact ⟨_, _, _, ρ.le_hide _, alike.withStore (ρ.le_hide _) (alike.store.hide _),
        ⟨_, rfl, .inl (.inr rfl)⟩, copied⟩
  obtain ⟨ρ₂, u, f, le₂, alike₂, hidden', second⟩ : ∃ ρ₂ u f, ρ₁ ≤ ρ₂ ∧
      World.Like L ρ₂ { w with store := t } { w' with store := u } ∧ f.IsSecret s ρ₂.hidden' ∧
      (evalRaise host (.fault y)).runOn w' = (Act.raised f).runOn { w' with store := u } := by
    obtain ⟨fixed, same⟩ | copied := runOn_evalRaise_of_plain host plain'
    · rw [(le'.kind made').2] at fixed
      exact ⟨ρ₁, _, _, le_refl _, alike₁, ⟨y, rfl, .inr ⟨made', fixed⟩⟩, same⟩
    · exact ⟨_, _, _, ρ₁.le_hide' _, alike₁.withStore (ρ₁.le_hide' _) (alike₁.store.hide' _),
        ⟨_, rfl, .inl (.inr rfl)⟩, copied⟩
  obtain ⟨z, rfl, why⟩ := hidden
  rw [first, second, Act.runOn_raised, Act.runOn_raised]
  refine ⟨ρ₂, le_trans le₁ le₂, alike₂.withStore (le_refl _) (alike₂.store.addOutcome _ _),
    .ok (.secret ?_ rfl rfl ⟨z, rfl, why.imp le₂.hidden id⟩ hidden')⟩
  exact congrArg OutcomeRef.mk alike₂.store.outcomes.size

/-- The rules of twin forms make the same move after twin outcomes, provided that the faults in
which the forms differ have no way of their own to be copied. -/
theorem matches_next (respects : host.Respects L) {r r' : Run σ} (alike : r.Like L ρ r')
    (le : s ≤ r.world.store) (le' : s ≤ r'.world.store) (twin : f.Twin nodes g) (fit : f.IsFit s)
    (fit' : g.IsFit s) (self : f.Like ρ f) {os ps : List Outcome}
    (all : Forall₂ (Outcome.Twin s ρ) os ps)
    (plain : ∀ {x y}, x ≠ y → f = .raise (.fault x) → g = .raise (.fault y) →
      ¬r.world.store.CopiesOwnWay x ∧ ¬r'.world.store.CopiesOwnWay y) :
    Matches (Run.Like L) ρ (Move.Twin s nodes f g) ((f.next host os).runOn r)
      ((g.next host ps).runOn r') := by
  cases twin with
  | literal v =>
    obtain ⟨like, -⟩ := List.forall₂_cons.1 self.values
    exact parallel_finish (Act.parallel_success like) (le_refl _) alike
  | reference name =>
    obtain ⟨like, -⟩ := List.forall₂_cons.1 self.values
    obtain ⟨⟨text, named, -⟩, there⟩ := fit
    have here := Store.text?_of_le le there named
    have looks := matches_lookup alike.world alike.frame.vars like here
    exact matches_finish looks alike.frame .finish
  | call callees args => exact parallel_nextOfCall respects callees args all (le_refl _) alike
  | fallback op lefts rights =>
    exact parallel_nextOfFallback respects op lefts rights all (le_refl _) alike
  | ternary conditions thenBranches elseBranches =>
    exact parallel_nextOfTernary respects conditions thenBranches elseBranches all (le_refl _) alike
  | raise x y =>
    by_cases same : x = y
    · subst same
      obtain ⟨like, -⟩ := List.forall₂_cons.1 self.values
      exact parallel_finish (parallel_evalRaise respects like) (le_refl _) alike
    · obtain ⟨_, hx, made, -⟩ := fit
      obtain ⟨_, hy, made', -⟩ := fit'
      cases hx
      cases hy
      obtain ⟨own, own'⟩ := plain same rfl rfl
      have raises := matches_evalRaise host alike.world le le' made made' own own'
      exact matches_finish raises alike.frame (.secret ⟨x, y, same, rfl, rfl⟩)

end Decisions

/-! ## Entering and leaving -/

/-- Faults that belong together both await a place, or none of them does. -/
theorem Fault.Like.awaitsPlace_eq {e f : Fault} (h : e.Like ρ f) :
    e.awaitsPlace = f.awaitsPlace := by
  rw [Fault.awaitsPlace, Fault.awaitsPlace, h.kind, h.place.isNull]

section Attaching

variable {base s t : Store} {o p : Outcome} {v w e : Value}

/-- Where nothing is learned from what is raised in the first store, attaching a place to it changes
nothing about the likeness of the stores. -/
theorem Store.Like.attach_secret (h : s.Like ρ t) (le : base ≤ s) (raised : o.result = .raised e)
    (secret : e.IsSecret base ρ.hidden) : (s.attachPlace v o).Like ρ t := by
  obtain ⟨x, rfl, hidden | ⟨made, fixed⟩⟩ := secret
  · simp only [attachPlace, raised]
    split
    · exact h.locate_hidden hidden _
    · exact h
  · have kind := (le.kind made).2
    simp only [attachPlace, raised, Fault.awaitsPlace, kind, fixed, Bool.false_and,
      Bool.false_eq_true, if_false]
    exact h

theorem Store.Like.attach_secret' (h : s.Like ρ t) (le : base ≤ t) (raised : o.result = .raised e)
    (secret : e.IsSecret base ρ.hidden') : s.Like ρ (t.attachPlace v o) := by
  obtain ⟨y, rfl, hidden | ⟨made, fixed⟩⟩ := secret
  · simp only [attachPlace, raised]
    split
    · exact h.locate_hidden' hidden _
    · exact h
  · have kind := (le.kind made).2
    simp only [attachPlace, raised, Fault.awaitsPlace, kind, fixed, Bool.false_and,
      Bool.false_eq_true, if_false]
    exact h

/-- Like places are attached to what twin outcomes raise. -/
theorem Store.Like.attachPlace (h : s.Like ρ t) (le : base ≤ s) (le' : base ≤ t)
    (places : (s.placeOf v).Like ρ (t.placeOf w)) (twin : o.Twin base ρ p) :
    (s.attachPlace v o).Like ρ (t.attachPlace w p) := by
  cases twin with
  | secret self first second hidden hidden' =>
    exact (h.attach_secret le first hidden).attach_secret' le' second hidden'
  | like like =>
    have told := h.isSome_line? places
    rcases first : o.result with v' | e <;> rcases second : p.result with w' | f <;>
      have results := like.result <;> rw [first, second] at results
    · simpa only [Store.attachPlace, first, second] using h
    · cases results
    · cases results
    · cases results with
      | raised like =>
        cases like with
        | @fault x y paired =>
          simp only [Store.attachPlace, first, second, (h.faults.like paired).awaitsPlace_eq, told]
          split
          · exact h.locate paired places
          · exact h
        | plain plain =>
          cases e with
          | fault => cases plain
          | _ => simpa only [Store.attachPlace, first, second] using h
        | _ => simpa only [Store.attachPlace, first, second] using h

end Attaching

section Nodes

open Work

variable {base : Store} {r r' : Run σ} {v w : Value} {f g : Frame}

/-- Like frames refuse alike, or open alike, values of which both are open or none is. -/
theorem Frame.Like.push (h : f.Like ρ g) (isOpen : v.identity ∈ f.active ↔ w.identity ∈ g.active) :
    (∃ refusal, f.push v = .error refusal ∧ g.push w = .error refusal) ∨
      ∃ f' g', f.push v = .ok f' ∧ g.push w = .ok g' ∧ f'.Like ρ g' := by
  obtain ⟨vars, maxDepth, debug, traced, depth⟩ := h
  obtain ⟨there, push⟩ | ⟨away, full, push⟩ | ⟨away, room, push⟩ := f.push_cases v
  · refine .inl ⟨_, push, ?_⟩
    simp [Frame.push, isOpen.1 there]
  · refine .inl ⟨_, push, ?_⟩
    simp only [Frame.push, List.contains_eq_mem, decide_eq_true_eq, mt isOpen.2 away, if_false,
      ← maxDepth, ← depth, if_pos full]
  · refine .inr ⟨_, { g with stack := w.identity :: g.stack, active := w.identity :: g.active },
      push, ?_, vars, maxDepth, debug, traced, congrArg (· + 1) depth⟩
    simp only [Frame.push, List.contains_eq_mem, decide_eq_true_eq, mt isOpen.2 away, if_false,
      ← maxDepth, ← depth, if_neg (Nat.not_le_of_lt room)]

/-- Nodes that stand for each other are entered in the same way. -/
theorem matches_enterNode (respects : host.Respects L) (alike : r.Like L ρ r')
    (isOpen : v.identity ∈ r.frame.active ↔ w.identity ∈ r'.frame.active)
    (nodes : L.Node ρ v w) (kinds : r.world.store.typeName v = r'.world.store.typeName w)
    (places : (r.world.store.placeOf v).Like ρ (r'.world.store.placeOf w)) :
    Matches (Run.Like L) ρ Pairing.Equal ((enterNode host v).runOn r)
      ((enterNode host w).runOn r') := by
  obtain ⟨refusal, refused, refused'⟩ | ⟨f, g, push, push', frames⟩ := alike.frame.push isOpen
  · have first : (enterNode host v).runOn r = (Eval.ofAttempt (Attempt.malformed
        (r.world.store.placeOf v) refusal.message) : Eval σ String).runOn r :=
      runOn_bind_error (runOn_openNode_of_refused refused) _
    have second : (enterNode host w).runOn r' = (Eval.ofAttempt (Attempt.malformed
        (r'.world.store.placeOf w) refusal.message) : Eval σ String).runOn r' :=
      runOn_bind_error (runOn_openNode_of_refused refused') _
    rw [first, second]
    exact Eval.parallel_ofAct (Act.parallel_ofAttempt (Attempt.parallel_malformed _ places))
      (le_refl _) alike
  · have rest (kind : String) : Parallel (Run.Like L) ρ Pairing.Equal
        (do
          debug host fun f => .enter (f.depth - 1) kind
          Eval.observe fun t => t.enter v
          return kind)
        (do
          debug host fun f => .enter (f.depth - 1) kind
          Eval.observe fun t => t.enter w
          return kind) := by
      refine (parallel_debug respects fun depth => by rw [depth]).bind fun le _ => ?_
      refine (Eval.parallel_observe fun le' traces => traces.enter ?_).bind fun _ _ =>
        .pure fun _ => rfl
      exact nodes.mono (le_trans le le')
    rw [enterNode, enterNode, runOn_bind_ok (runOn_openNode_of_push push),
      runOn_bind_ok (runOn_openNode_of_push push'), runOn_bind_ok (Eval.runOn_store _),
      runOn_bind_ok (Eval.runOn_store _)]
    dsimp only
    rw [kinds]
    exact rest _ (le_refl _) ⟨alike.world, frames⟩

/-- Nodes that stand for each other are left in the same way with twin outcomes. -/
theorem matches_leaveNode (respects : host.Respects L) (alike : r.Like L ρ r')
    (le : base ≤ r.world.store) (le' : base ≤ r'.world.store) (push : f.push v = .ok r.frame)
    (push' : g.push w = .ok r'.frame) (frames : f.Like ρ g) (nodes : L.Node ρ v w)
    (places : (r.world.store.placeOf v).Like ρ (r'.world.store.placeOf w)) (kind : String)
    {o p : Outcome} (twin : o.Twin base ρ p) :
    Matches (Run.Like L) ρ Pairing.Equal ((leaveNode host v kind o).runOn r)
      ((leaveNode host w kind p).runOn r') := by
  have shared : o.toValue.Shares ρ p.toValue :=
    .inr ⟨o.self, rfl, congrArg Value.outcome twin.self.symm⟩
  have noted : (⟨r.frame, r.noted v o⟩ : Run σ).Like L ρ ⟨r'.frame, r'.noted w p⟩ := by
    refine ⟨⟨alike.world.store.attachPlace le le' places twin, ?_, alike.world.log,
      alike.world.host⟩, alike.frame⟩
    simp only [Run.noted, alike.frame.traced]
    split
    · exact alike.world.trace.exit nodes shared
    · exact alike.world.trace
  have records : Parallel (Run.Like L) ρ Pairing.Equal
      (debug host fun f => .exit (f.depth - 1) kind o.isRaised)
      (debug host fun f => .exit (f.depth - 1) kind p.isRaised) :=
    parallel_debug respects fun depth => by rw [depth, twin.isRaised]
  have changes : ReflTransGen (Run.Change host) ⟨r.frame, r.noted v o⟩ _ :=
    makes_debug (fun f => .exit (f.depth - 1) kind o.isRaised) _
  have changes' : ReflTransGen (Run.Change host) ⟨r'.frame, r'.noted w p⟩ _ :=
    makes_debug (fun f => .exit (f.depth - 1) kind p.isRaised) _
  have kept := Run.Change.frame_eq changes
  have kept' := Run.Change.frame_eq changes'
  obtain ⟨ρ₁, le₁, left, ends⟩ := records (le_refl _) noted
  rw [runOn_leaveNode, runOn_leaveNode, runOn_bind, runOn_bind]
  generalize (debug host _).runOn ⟨r.frame, r.noted v o⟩ = q at kept left ends ⊢
  generalize (debug host _).runOn ⟨r'.frame, r'.noted w p⟩ = q' at kept' left ends ⊢
  obtain ⟨result, r₁⟩ := q
  obtain ⟨result', r₁'⟩ := q'
  cases ends with
  | error paired => exact ⟨ρ₁, le₁, left, .error paired⟩
  | ok same =>
    dsimp only at kept kept' left ⊢
    have pop : r₁.frame.pop v = (.ok (), f) := kept ▸ Frame.pop_of_push push
    have pop' : r₁'.frame.pop w = (.ok (), g) := kept' ▸ Frame.pop_of_push push'
    rw [runOn_closeNode_of_pop pop, runOn_closeNode_of_pop pop']
    exact ⟨ρ₁, le₁, ⟨left.world, frames.mono le₁⟩, .ok rfl⟩

end Nodes

end Fallback
