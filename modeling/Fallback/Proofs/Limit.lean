import Fallback.Proofs.Failure

/-!
Work that has nothing to do with the limit on the depth.

`Run.deepen` is a state of an evaluation under a limit that is higher by some number. Work ignores
the limit if it does the same there, and everything that the evaluator does ignores it but the
opening of a node, which does the same unless the limit stands against it: `liftsAt_enterNode`. What
ignores the limit is closed under the ways in which work is put together, so each function of the
evaluator needs one line.
-/
namespace Fallback

variable {σ α β : Type} {host : Host σ}

/-! ## Frames with a higher limit -/

namespace Frame

/-- The frame under a limit that is higher by some number. -/
def deepen (f : Frame) (k : Nat) : Frame :=
  { f with maxDepth := f.maxDepth + k }

variable {f g : Frame} {v : Value}

/-- A frame refuses a value that is open, it refuses any other value once the limit is reached, and
otherwise it opens the value. -/
theorem push_cases (f : Frame) (v : Value) :
    (v.identity ∈ f.active ∧ f.push v = .error .cyclic) ∨
    (v.identity ∉ f.active ∧ f.maxDepth ≤ f.depth ∧
      f.push v = .error (.tooDeep f.maxDepth)) ∨
    (v.identity ∉ f.active ∧ f.depth < f.maxDepth ∧ f.push v =
      .ok { f with stack := v.identity :: f.stack, active := v.identity :: f.active }) := by
  by_cases isOpen : v.identity ∈ f.active
  · exact .inl ⟨isOpen, by simp [push, isOpen]⟩
  · by_cases full : f.maxDepth ≤ f.depth
    · exact .inr (.inl ⟨isOpen, full, by simp [push, isOpen, full]⟩)
    · exact .inr (.inr ⟨isOpen, Nat.lt_of_not_le full, by simp [push, isOpen, full]⟩)

theorem push_eq_tooDeep_iff :
    f.push v = .error (.tooDeep f.maxDepth) ↔ v.identity ∉ f.active ∧ f.maxDepth ≤ f.depth := by
  obtain ⟨isOpen, push⟩ | ⟨closed, full, push⟩ | ⟨closed, room, push⟩ := f.push_cases v
  · simp [push, isOpen]
  · simp [push, closed, full]
  · simp [push, closed, room]

/-- Opening a value does the same under a higher limit, unless the limit stands against it. -/
theorem push_deepen (k : Nat) (low : f.push v ≠ .error (.tooDeep f.maxDepth)) :
    (f.deepen k).push v = (f.push v).map (·.deepen k) := by
  obtain ⟨isOpen, push⟩ | ⟨closed, full, push⟩ | ⟨closed, room, push⟩ := f.push_cases v
  · rw [push]
    simp [Frame.push, deepen, isOpen, Except.map]
  · exact absurd push low
  · have more : ¬f.maxDepth + k ≤ f.stack.length := by
      have : f.stack.length < f.maxDepth := room
      omega
    rw [push]
    simp [Frame.push, deepen, depth, closed, more, Except.map]

theorem pop_deepen (f : Frame) (v : Value) (k : Nat) :
    (f.deepen k).pop v = ((f.pop v).1, (f.pop v).2.deepen k) := by
  unfold pop deepen
  dsimp only
  split
  · rfl
  · split <;> rfl

end Frame

/-- The state under a limit that is higher by some number. -/
def Run.deepen (r : Run σ) (k : Nat) : Run σ :=
  ⟨r.frame.deepen k, r.world⟩

/-! ## Work that has nothing to do with the limit -/

/-- From a state the work ends as it does under a limit that is higher by some number. -/
def Work.LiftsAt (k : Nat) (r : Run σ) (x : Eval σ α) : Prop :=
  ∀ result r', x.runOn r = (result, r') → x.runOn (r.deepen k) = (result, r'.deepen k)

/-- The work does the same under any limit on the depth. -/
def Work.IgnoresLimit (x : Eval σ α) : Prop :=
  ∀ (k : Nat) (r : Run σ), x.LiftsAt k r

section Work

open Work

/-- What the work ends with under the higher limit it ends with under the lower one. -/
theorem Work.LiftsAt.back {k : Nat} {r r' : Run σ} {x : Eval σ α} (h : x.LiftsAt k r)
    {result : Except FaultRef α} (ends : x.runOn (r.deepen k) = (result, r')) :
    ∃ r₁, r' = r₁.deepen k ∧ x.runOn r = (result, r₁) := by
  rcases hx : x.runOn r with ⟨result', r₁⟩
  rw [h _ _ hx] at ends
  cases ends
  exact ⟨r₁, rfl, rfl⟩

theorem Work.LiftsAt.bind {k : Nat} {r : Run σ} {x : Eval σ α} {f : α → Eval σ β}
    (hx : x.LiftsAt k r) (hf : ∀ a, IgnoresLimit (f a)) : (x >>= f).LiftsAt k r := by
  intro result r' h
  rcases hxr : x.runOn r with ⟨e | a, r₁⟩
  · rw [runOn_bind_error hxr] at h
    cases h
    exact runOn_bind_error (hx _ _ hxr) _
  · rw [runOn_bind_ok hxr] at h
    rw [runOn_bind_ok (hx _ _ hxr)]
    exact hf a k r₁ result r' h

theorem Work.IgnoresLimit.bind {x : Eval σ α} {f : α → Eval σ β} (hx : IgnoresLimit x)
    (hf : ∀ a, IgnoresLimit (f a)) : IgnoresLimit (x >>= f) :=
  fun k r => (hx k r).bind hf

theorem ignoresLimit_pure (a : α) : IgnoresLimit (pure a : Eval σ α) := by
  intro k r result r' h
  cases h
  rfl

theorem ignoresLimit_act (x : Act σ α) : IgnoresLimit (Eval.ofAct x) := by
  intro k r result r' h
  cases h
  rfl

theorem ignoresLimit_store : IgnoresLimit (Eval.store : Eval σ Store) := by
  intro k r result r' h
  cases h
  rfl

theorem ignoresLimit_modifyStore (f : Store → Store) :
    IgnoresLimit (Eval.modifyStore f : Eval σ Unit) := by
  intro k r result r' h
  cases h
  rfl

theorem ignoresLimit_observe (f : Trace → Trace) : IgnoresLimit (Eval.observe f : Eval σ Unit) := by
  intro k r result r' h
  obtain ⟨frame, world⟩ := r
  cases h
  cases traced : frame.traced <;>
    simp [Eval.observe, runOn_modify, Run.deepen, Frame.deepen, traced]

theorem ignoresLimit_debug {record : Frame → LogRecord}
    (same : ∀ f k, record (f.deepen k) = record f) : IgnoresLimit (debug host record) := by
  intro k r result r' h
  have tests : (r.deepen k).frame.debug = r.frame.debug := rfl
  have world : (r.deepen k).world = r.world := rfl
  rw [runOn_debug] at h ⊢
  rw [tests, world]
  rcases tested : (truthTest host r.frame.debug).runOn r.world with ⟨e | b, w⟩
  · rw [tested] at h
    cases h
    rfl
  · rw [tested] at h
    cases h
    cases b with
    | false => rfl
    | true => simp [Run.deepen, same]

theorem ignoresLimit_closeNode (v : Value) : IgnoresLimit (closeNode v : Eval σ Unit) := by
  intro k r result r' h
  simp only [closeNode, runOn_bind, runOn_get, runOn_set, Run.deepen, Frame.pop_deepen] at h ⊢
  rcases pop : r.frame.pop v with ⟨refusal | u, f⟩
  · rw [pop] at h
    cases h
    rfl
  · rw [pop] at h
    cases h
    rfl

theorem ignoresLimit_leaveNode (v : Value) (kind : String) (o : Outcome) :
    IgnoresLimit (leaveNode host v kind o) :=
  (ignoresLimit_modifyStore _).bind fun _ => (ignoresLimit_observe _).bind fun _ =>
    (ignoresLimit_debug fun _ _ => rfl).bind fun _ => ignoresLimit_closeNode v

/-- Entering a node does the same under a higher limit, unless the limit stands against it. -/
theorem liftsAt_enterNode (host : Host σ) (k : Nat) {v : Value} {r : Run σ}
    (low : r.frame.push v ≠ .error (.tooDeep r.frame.maxDepth)) :
    (enterNode host v).LiftsAt k r := by
  have opens : (openNode v).LiftsAt k r := by
    intro result r' h
    have deepened := Frame.push_deepen k low
    rcases push : r.frame.push v with refusal | f
    · rw [push] at deepened
      rw [runOn_openNode_of_refused push] at h
      rw [runOn_openNode_of_refused deepened]
      cases h
      rfl
    · rw [push] at deepened
      rw [runOn_openNode_of_push push] at h
      rw [runOn_openNode_of_push deepened]
      cases h
      rfl
  exact opens.bind fun _ => ignoresLimit_store.bind fun _ =>
    (ignoresLimit_debug fun _ _ => rfl).bind fun _ =>
      (ignoresLimit_observe _).bind fun _ => ignoresLimit_pure _

theorem ignoresLimit_nextOnTruth (v : Value) (onTrue onFalse : Move) :
    IgnoresLimit (nextOnTruth host v onTrue onFalse) := by
  refine (ignoresLimit_act _).bind fun tested => ?_
  cases tested with
  | error e => exact (ignoresLimit_act _).bind fun _ => ignoresLimit_pure _
  | ok b => exact ignoresLimit_pure _

theorem ignoresLimit_lookupInFrame (name : Value) :
    IgnoresLimit (lookupInFrame name : Eval σ Outcome) := by
  intro k r result r' h
  cases h
  rfl

/-- Deciding has nothing to do with the limit. -/
theorem Form.ignoresLimit_next (host : Host σ) (f : Form) (os : List Outcome) :
    IgnoresLimit (f.next host os) := by
  have finishes {x : Eval σ Outcome} (hx : IgnoresLimit x) :
      IgnoresLimit (do return Move.finish (← x) : Eval σ Move) :=
    hx.bind fun _ => ignoresLimit_pure _
  cases f with
  | literal v => exact finishes (ignoresLimit_act _)
  | reference name => exact finishes (ignoresLimit_lookupInFrame name)
  | raise exception => exact finishes (ignoresLimit_act _)
  | call callee args =>
    rcases os with _ | ⟨first, more⟩
    · exact ignoresLimit_pure _
    · obtain kept | ⟨i, v, visited⟩ | ⟨last, enough⟩ :=
        nextOfCall_cons_cases host callee args.tupleItems first more
      · rw [next, kept]
        exact ignoresLimit_pure _
      · rw [next, visited]
        exact ignoresLimit_pure _
      · rw [next, nextOfCall_of_complete last enough]
        exact finishes (ignoresLimit_act _)
  | fallback op lhs rhs =>
    obtain ⟨m, settled, -⟩ | ⟨self, v, rfl, rfl, asked⟩ | ⟨self, e, rfl, rfl, falls⟩ :=
      nextOfFallback_cases host op lhs rhs os
    · rw [next, settled]
      exact ignoresLimit_pure _
    · rw [next, asked]
      exact ignoresLimit_nextOnTruth _ _ _
    · rw [next, falls]
      exact (ignoresLimit_debug fun _ _ => rfl).bind fun _ => ignoresLimit_pure _
  | ternary condition thenBranch elseBranch =>
    obtain ⟨m, settled, -⟩ | ⟨self, v, rfl, asked⟩ :=
      nextOfTernary_cases host condition thenBranch elseBranch os
    · rw [next, settled]
      exact ignoresLimit_pure _
    · rw [next, asked]
      exact ignoresLimit_nextOnTruth _ _ _

end Work

end Fallback
