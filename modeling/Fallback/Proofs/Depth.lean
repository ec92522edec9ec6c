import Fallback.Proofs.Agreement
import Fallback.Proofs.Course
import Fallback.Proofs.Escape
import Fallback.Proofs.Limit

/-!
The limit on the depth.

A higher limit changes nothing as long as the lower one is not exceeded. `Position.deepen` is a
position under a limit that is higher by some number, and what happens there is what happens at the
position itself, except where a node is refused as too deep: `Position.ending_deepen`. Where the
lower limit is exceeded, the evaluation under the higher one comes to that very visit, which is the
first to open a node that is not open yet while as many nodes are open as the lower limit allows. A
node that is open already is refused as a circle under any limit, so that a visit to it does not
count.
-/
namespace Fallback

open Relation (ReflTransGen TransGen)

variable {σ : Type} {host : Host σ}

namespace Position

/-! ## Depths -/

/-- The node is refused because the limit is reached. -/
def IsTooDeep (c : Position σ) : Prop :=
  c.run.frame.push c.value = .error (.tooDeep c.run.frame.maxDepth)

/-- The limit is exceeded in the course of the visit. -/
def Exceeds (host : Host σ) (p : Position σ) : Prop :=
  ∃ c, p.Reaches host c ∧ c.IsTooDeep

/-- The visit tries to open a node that is not open while some number of nodes are. -/
structure Attempts (c : Position σ) (depth : Nat) : Prop where
  depth_eq : c.run.frame.depth = depth
  closed : c.value.identity ∉ c.run.frame.stack

/-- The position under a limit that is higher by some number. -/
def deepen (p : Position σ) (k : Nat) : Position σ :=
  ⟨p.budget + k, p.node, p.run.deepen k⟩

variable {p c d : Position σ} {os : List Outcome} {o : Outcome} {r r' : Run σ} {k : Nat}

/-- A visit begins with the frame in which the node of the visit that makes it is open. -/
theorem Visits.push_eq (h : p.Visits host os c) (sound : p.IsSound) (hk : host.KeepsTrees) :
    p.run.frame.push p.value = .ok c.run.frame := by
  obtain ⟨r, slot, progress, decided⟩ := h.decided
  rw [(progress.push_eq sound hk).1, Run.Change.frame_eq ((p.form.makes_next os).of_run decided)]

theorem Visits.depth_eq (h : p.Visits host os c) (sound : p.IsSound) (hk : host.KeepsTrees) :
    c.run.frame.depth = p.run.frame.depth + 1 ∧ c.run.frame.maxDepth = p.run.frame.maxDepth := by
  obtain ⟨depth, maxDepth, -⟩ := Frame.depth_of_push (h.push_eq sound hk)
  exact ⟨depth, maxDepth⟩

/-- Below a visit the depth is greater, and the limit is the same. -/
theorem Reaches.depth_lt (h : p.Reaches host c) (sound : p.IsSound) (hk : host.KeepsTrees) :
    (c = p ∨ p.run.frame.depth < c.run.frame.depth) ∧
      c.run.frame.maxDepth = p.run.frame.maxDepth := by
  induction h with
  | refl => exact ⟨.inl rfl, rfl⟩
  | tail above step ih =>
    obtain ⟨slot, child⟩ := step
    obtain ⟨os, visits⟩ := child.visits
    obtain ⟨depth, maxDepth⟩ := visits.depth_eq (isSound_of_reaches above sound hk) hk
    refine ⟨.inr ?_, maxDepth.trans ih.2⟩
    obtain rfl | less := ih.1
    · omega
    · omega

theorem Attempts.deepen {depth : Nat} (h : c.Attempts depth) (k : Nat) :
    (c.deepen k).Attempts depth :=
  ⟨h.depth_eq, h.closed⟩

theorem Attempts.of_deepen {depth : Nat} (h : (c.deepen k).Attempts depth) : c.Attempts depth :=
  ⟨h.depth_eq, h.closed⟩

/-- A node is refused as too deep when it is not open and as many nodes are as the limit allows. -/
theorem isTooDeep_iff (sound : c.IsSound) :
    c.IsTooDeep ↔ c.Attempts c.run.frame.maxDepth := by
  have room := sound.room
  rw [IsTooDeep, Frame.push_eq_tooDeep_iff, sound.balanced.active_eq]
  constructor
  · rintro ⟨closed, full⟩
    exact ⟨by omega, closed⟩
  · rintro ⟨depth, closed⟩
    exact ⟨closed, by omega⟩

theorem Exceeds.above (h : c.Exceeds host) (reached : p.Reaches host c) : p.Exceeds host := by
  obtain ⟨d, below, deep⟩ := h
  exact ⟨d, reached.trans below, deep⟩

theorem IsTooDeep.ending (h : c.IsTooDeep) (host : Host σ) :
    c.ending host = (Eval.ofAttempt (Attempt.malformed (c.run.world.store.placeOf c.value)
      (Frame.Refusal.tooDeep c.run.frame.maxDepth).message) : Eval σ Outcome).runOn c.run :=
  ending_of_refused host h

/-- A visit that ends well has not exceeded the limit. -/
theorem not_exceeds_of_ending (sound : p.IsSound) (hk : host.KeepsTrees)
    (ending : p.ending host = (.ok o, r)) : ¬p.Exceeds host := by
  rintro ⟨c, reached, deep⟩
  obtain ⟨o', r', cending⟩ := ending_ok_of_reaches reached sound hk ending
  rw [deep.ending] at cending
  cases cending

/-! ## Positions under a higher limit -/

theorem IsSound.deepen (sound : p.IsSound) (k : Nat) : (p.deepen k).IsSound := by
  refine ⟨sound.tree, ⟨sound.balanced.active_eq, sound.balanced.nodup⟩, ?_⟩
  have room := sound.room
  show p.run.frame.depth + (p.budget + k) = p.run.frame.maxDepth + k
  omega

theorem IsTooDeep.not_entered {kind : String} (h : c.IsTooDeep) :
    (enterNode host c.value).runOn c.run ≠ (.ok kind, r) := by
  intro enter
  have push := (enterNode_ok enter).2.1
  rw [h] at push
  cases push

/-- A visit comes as far under a higher limit, if the visits that it makes end as well there. -/
theorem Progress.deepen_of (sound : p.IsSound) (hk : host.KeepsTrees)
    (below : ∀ c : Position σ, c.budget < p.budget → c.IsSound →
      ∀ o r, c.ending host = (.ok o, r) → (c.deepen k).ending host = (.ok o, r.deepen k))
    (h : p.Progress host os r) : (p.deepen k).Progress host os (r.deepen k) := by
  induction h with
  | entered budget enter =>
    refine .entered (fun none => budget (Nat.eq_zero_of_add_eq_zero_right none)) ?_
    have low : ¬p.IsTooDeep := fun deep => deep.not_entered enter
    exact liftsAt_enterNode host k low _ _ enter
  | @visited before _ slot v r₁ o r₂ progress decided visit ih =>
    obtain ⟨c, rfl, child, csound, rfl, cending⟩ := progress.child sound hk decided
    have budget := child.budget
    have same : (p.deepen k).budget - 1 = c.budget + k := by
      show p.budget + k - 1 = c.budget + k
      omega
    refine .visited ih (p.form.ignoresLimit_next host before k _ _ _ decided) ?_
    rw [same]
    exact below c (by omega) csound o r₂ (cending.trans visit)

/-- What ends well does so under a higher limit. -/
theorem ending_deepen_of_ok (sound : p.IsSound) (hk : host.KeepsTrees) (k : Nat)
    (h : p.ending host = (.ok o, r)) : (p.deepen k).ending host = (.ok o, r.deepen k) := by
  induction hb : p.budget using Nat.strongRecOn generalizing p o r with
  | ind b ih =>
    obtain ⟨r₁, ⟨os, r₀, progress, decided⟩, left⟩ := (ending_eq_ok_iff sound hk).1 h
    have progress' := progress.deepen_of sound hk fun c less csound o r ending =>
      ih c.budget (hb ▸ less) csound ending rfl
    refine (ending_eq_ok_iff (sound.deepen k) hk).2 ⟨r₁.deepen k, ⟨os, r₀.deepen k, progress', ?_⟩,
      ignoresLimit_leaveNode _ _ _ k r₁ _ _ left⟩
    have decides := p.form.ignoresLimit_next host os k r₀
    exact decided.imp (decides _ _) (decides _ _)

/-- A visit comes as far under a higher limit. -/
theorem Progress.deepen (h : p.Progress host os r) (sound : p.IsSound) (hk : host.KeepsTrees)
    (k : Nat) : (p.deepen k).Progress host os (r.deepen k) :=
  h.deepen_of sound hk fun _ _ csound _ _ ending => ending_deepen_of_ok csound hk k ending

theorem Visits.deepen (h : p.Visits host os c) (sound : p.IsSound) (hk : host.KeepsTrees)
    (k : Nat) : (p.deepen k).Visits host os (c.deepen k) := by
  obtain ⟨r, slot, progress, decided⟩ := h.decided
  have budget := h.budget
  refine ⟨?_, r.deepen k, slot, progress.deepen sound hk k, ?_⟩
  · show c.budget + k + 1 = p.budget + k
    omega
  · exact p.form.ignoresLimit_next host os k r _ _ decided

theorem Reaches.deepen (h : p.Reaches host c) (sound : p.IsSound) (hk : host.KeepsTrees)
    (k : Nat) : (p.deepen k).Reaches host (c.deepen k) := by
  induction h with
  | refl => exact .refl
  | tail above step ih =>
    obtain ⟨slot, child⟩ := step
    obtain ⟨os, visits⟩ := child.visits
    exact ih.tail (visits.deepen (isSound_of_reaches above sound hk) hk k).child

theorem Settles.deepen (h : p.Settles host o r) (sound : p.IsSound) (hk : host.KeepsTrees)
    (k : Nat) : (p.deepen k).Settles host o (r.deepen k) := by
  obtain ⟨os, r₀, progress, decided⟩ := h
  have decides := p.form.ignoresLimit_next host os k r₀
  exact ⟨os, r₀.deepen k, progress.deepen sound hk k, decided.imp (decides _ _) (decides _ _)⟩

/-- What breaks a visit off breaks it off under a higher limit, unless it is the limit. -/
theorem BreaksOff.deepen {e : FaultRef} (h : c.BreaksOff host e r) (low : ¬c.IsTooDeep)
    (sound : c.IsSound) (hk : host.KeepsTrees) (k : Nat) :
    (c.deepen k).BreaksOff host e (r.deepen k) := by
  cases h with
  | entering h => exact .entering (liftsAt_enterNode host k low _ _ h)
  | deciding progress h =>
    exact .deciding (progress.deepen sound hk k) (c.form.ignoresLimit_next host _ k _ _ _ h)
  | leaving settled h =>
    exact .leaving (settled.deepen sound hk k) (ignoresLimit_leaveNode _ _ _ k _ _ _ h)

/-- As long as the limit is not exceeded, a higher one makes no difference. -/
theorem ending_deepen (sound : p.IsSound) (hk : host.KeepsTrees) (low : ¬p.Exceeds host)
    (k : Nat) {result : Except FaultRef Outcome} (ending : p.ending host = (result, r)) :
    (p.deepen k).ending host = (result, r.deepen k) := by
  cases result with
  | ok o => exact ending_deepen_of_ok sound hk k ending
  | error e =>
    obtain ⟨c, reached, broken⟩ := (ending_eq_error_iff_reaches sound hk).1 ending
    have csound := isSound_of_reaches reached sound hk
    exact (ending_eq_error_iff_reaches (sound.deepen k) hk).2 ⟨c.deepen k,
      reached.deepen sound hk k, broken.deepen (fun deep => low ⟨c, reached, deep⟩) csound hk k⟩

theorem ending_of_deepen (sound : p.IsSound) (hk : host.KeepsTrees) (low : ¬p.Exceeds host)
    {result : Except FaultRef Outcome} (ending : (p.deepen k).ending host = (result, r')) :
    ∃ r, r' = r.deepen k ∧ p.ending host = (result, r) := by
  rcases ends : p.ending host with ⟨result', r⟩
  rw [ending_deepen sound hk low k ends] at ending
  cases ending
  exact ⟨r, rfl, rfl⟩

/-! ## Back to the lower limit -/

/-- As long as the limit is not exceeded, a visit comes no further under a higher one. -/
theorem Progress.of_deepen (h : (p.deepen k).Progress host os r') (sound : p.IsSound)
    (hk : host.KeepsTrees) (low : ¬p.Exceeds host) :
    ∃ r, r' = r.deepen k ∧ p.Progress host os r := by
  induction h with
  | entered budget enter =>
    have here : ¬p.IsTooDeep := fun deep => low ⟨p, .refl, deep⟩
    obtain ⟨r, rfl, entered⟩ := (liftsAt_enterNode host k here).back enter
    exact ⟨r, rfl, .entered (sound.positive entered) entered⟩
  | @visited before _ slot v _ o _ progress decided visit ih =>
    obtain ⟨r₀, rfl, progress₀⟩ := ih
    obtain ⟨r₁, rfl, decided₀⟩ := (p.form.ignoresLimit_next host before k r₀).back decided
    obtain ⟨c, rfl, child, csound, rfl, cending⟩ := progress₀.child sound hk decided₀
    have budget := child.budget
    have same : (p.deepen k).budget - 1 = c.budget + k := by
      show p.budget + k - 1 = c.budget + k
      omega
    have clow : ¬c.Exceeds host := fun deep => low (deep.above (.single ⟨slot, child⟩))
    rw [same] at visit
    obtain ⟨r₂, rfl, ending⟩ := ending_of_deepen csound hk clow visit
    exact ⟨r₂, rfl, progress₀.visited decided₀ (cending.symm.trans ending)⟩

theorem Visits.of_deepen (h : (p.deepen k).Visits host os d) (sound : p.IsSound)
    (hk : host.KeepsTrees) (low : ¬p.Exceeds host) :
    ∃ c, d = c.deepen k ∧ p.Visits host os c := by
  obtain ⟨r', slot, progress, decided⟩ := h.decided
  obtain ⟨r, rfl, progress₀⟩ := progress.of_deepen sound hk low
  obtain ⟨r₁, run, decided₀⟩ := (p.form.ignoresLimit_next host os k r).back decided
  obtain ⟨b, n, r₁'⟩ := d
  cases run
  have budget : b + 1 = p.budget + k := h.budget
  have positive := progress₀.entry.1
  obtain rfl : b = p.budget - 1 + k := by omega
  exact ⟨⟨p.budget - 1, n, r₁⟩, rfl, Nat.succ_pred positive, r, slot, progress₀, decided₀⟩

/-- As long as the limit is not exceeded, nothing more is reached under a higher one. -/
theorem Reaches.of_deepen (h : (p.deepen k).Reaches host d) (sound : p.IsSound)
    (hk : host.KeepsTrees) (low : ¬p.Exceeds host) : ∃ c, d = c.deepen k ∧ p.Reaches host c := by
  induction h with
  | refl => exact ⟨p, rfl, .refl⟩
  | tail _ step ih =>
    obtain ⟨c, rfl, reached⟩ := ih
    obtain ⟨slot, child⟩ := step
    obtain ⟨os, visits⟩ := child.visits
    obtain ⟨c', rfl, visits'⟩ := visits.of_deepen (isSound_of_reaches reached sound hk) hk
      fun deep => low (deep.above reached)
    exact ⟨c', rfl, reached.trans visits'.reaches⟩

/-- As long as the limit is not exceeded, nothing under a higher one goes beyond it. -/
theorem not_attempts (sound : p.IsSound) (hk : host.KeepsTrees) (low : ¬p.Exceeds host)
    (h : (p.deepen k).Reaches host d) : ¬d.Attempts p.run.frame.maxDepth := by
  intro attempts
  obtain ⟨c, rfl, reached⟩ := h.of_deepen sound hk low
  have csound := isSound_of_reaches reached sound hk
  have maxDepth := (reached.depth_lt sound hk).2
  refine low ⟨c, reached, (isTooDeep_iff csound).2 ?_⟩
  rw [maxDepth]
  exact attempts.of_deepen

/-- The limit is exceeded exactly if some visit under a higher one goes beyond it. -/
theorem exceeds_iff (sound : p.IsSound) (hk : host.KeepsTrees) (k : Nat) :
    p.Exceeds host ↔
      ∃ d, (p.deepen k).Reaches host d ∧ d.Attempts p.run.frame.maxDepth := by
  constructor
  · rintro ⟨c, reached, deep⟩
    have attempts := (isTooDeep_iff (isSound_of_reaches reached sound hk)).1 deep
    rw [(reached.depth_lt sound hk).2] at attempts
    exact ⟨c.deepen k, reached.deepen sound hk k, attempts.deepen k⟩
  · rintro ⟨d, reached, attempts⟩
    by_contra low
    exact not_attempts sound hk low reached attempts

/-- The visit that is refused as too deep is the first one that goes beyond the limit under a higher
one: all others come after it. -/
theorem eq_or_precedes_of_attempts (sound : p.IsSound) (hk : host.KeepsTrees)
    (h : p.Reaches host c) (deep : c.IsTooDeep) (k : Nat) (hd : (p.deepen k).Reaches host d)
    (attempts : d.Attempts p.run.frame.maxDepth) :
    d = c.deepen k ∨ (p.deepen k).Precedes host (c.deepen k) d := by
  have dsound := isSound_of_reaches hd (sound.deepen k) hk
  induction h using ReflTransGen.head_induction_on with
  | refl =>
    -- a visit below this one has more open nodes
    have full := ((isTooDeep_iff sound).1 deep).depth_eq
    have depth := attempts.depth_eq
    refine (hd.depth_lt (sound.deepen k) hk).1.imp id fun less => ?_
    have : c.run.frame.depth < d.run.frame.depth := less
    omega
  | @head p c' step below ih =>
    have below : c'.Reaches host c := below
    obtain ⟨slot, child⟩ := step
    obtain ⟨os, visits⟩ := child.visits
    have csound := child.isSound sound hk
    obtain ⟨depth, maxDepth⟩ := visits.depth_eq sound hk
    obtain same | ⟨d', step', below'⟩ := hd.cases_head
    · -- fewer nodes are open here than at the visit that is refused
      have full := ((isTooDeep_iff (isSound_of_reaches below csound hk)).1 deep).depth_eq
      have most := (below.depth_lt csound hk).2
      have least := attempts.depth_eq
      rw [← same] at least
      have : p.run.frame.depth = p.run.frame.maxDepth := least
      have room := csound.room
      omega
    · obtain ⟨slot', child'⟩ := step'
      obtain ⟨os', visits'⟩ := child'.visits
      have deepened := visits.deepen sound hk k
      obtain less | same | less := Nat.lt_trichotomy os.length os'.length
      · exact .inr ⟨.refl, deepened, visits', less, below.deepen csound hk k, below'⟩
      · obtain rfl := deepened.unique visits' same
        rw [← maxDepth] at attempts
        exact (ih csound below' attempts).imp id fun h => h.above deepened.reaches
      · -- an earlier visit has ended well under the limit, so nothing below it goes beyond
        obtain ⟨r, slot, progress, -⟩ := visits.decided
        obtain ⟨os₀, c₀, o, r₁, length, visits₀, ending, -⟩ := progress.earlier sound hk less
        obtain rfl := (visits₀.deepen sound hk k).unique visits' length
        have sound₀ := visits₀.isSound sound hk
        have low := not_exceeds_of_ending sound₀ hk ending
        rw [← (visits₀.depth_eq sound hk).2] at attempts
        exact absurd attempts (not_attempts sound₀ hk low below')

/-! ## Open nodes of a built tree -/

/-- The node that is visited next is an operand. -/
theorem Visits.operand (h : p.Visits host os c) : p.run.world.store.Operand p.node c.node := by
  obtain ⟨r, slot, progress, decided⟩ := h.decided
  exact Form.next_visit_mem decided

/-- Every open node has the one that is visited below it. -/
theorem Reaches.above (h : p.Reaches host c) (sound : p.IsSound) (hk : host.KeepsTrees)
    (none : p.run.frame.stack = []) :
    ReflTransGen p.run.world.store.Operand p.node c.node ∧
      ∀ id ∈ c.run.frame.stack,
        ∃ m, id = .node m ∧ TransGen p.run.world.store.Operand m c.node := by
  induction h with
  | refl =>
    rw [none]
    exact ⟨.refl, nofun⟩
  | @tail b c reached step ih =>
    obtain ⟨below, above⟩ := ih
    obtain ⟨slot, child⟩ := step
    obtain ⟨os, visits⟩ := child.visits
    have bsound := isSound_of_reaches reached sound hk
    have made := (sound.tree b.node below).made
    have same := Store.form_eq_of_le (Reaches.leads reached |>.le hk) made
    have operand := visits.operand
    rw [Store.Operand, same] at operand
    have push := visits.push_eq bsound hk
    obtain ⟨-, opens⟩ | ⟨-, -, opens⟩ | ⟨-, -, opens⟩ := b.run.frame.push_cases b.value
    · rw [opens] at push
      cases push
    · rw [opens] at push
      cases push
    · rw [opens] at push
      refine ⟨below.tail operand, fun id isOpen => ?_⟩
      rw [← Except.ok.inj push] at isOpen
      obtain rfl | isOpen := List.mem_cons.1 isOpen
      · exact ⟨b.node, rfl, .single operand⟩
      · obtain ⟨m, rfl, transGen⟩ := above id isOpen
        exact ⟨m, rfl, transGen.tail operand⟩

/-- In a tree as the constructors build it no node is visited while it is open. -/
theorem Reaches.closed (h : p.Reaches host c) (sound : p.IsSound) (hk : host.KeepsTrees)
    (none : p.run.frame.stack = []) (built : p.run.world.store.IsBuilt p.node) :
    c.value.identity ∉ c.run.frame.stack := by
  intro isOpen
  obtain ⟨below, above⟩ := h.above sound hk none
  obtain ⟨m, same, circle⟩ := above _ isOpen
  cases same
  exact (built.of_reached below).acyclic circle

end Position

/-! ## Evaluations under two limits -/

/-- The request with another limit on the depth. -/
def Request.limited (q : Request) (maxDepth : Nat) (positive : 1 ≤ maxDepth) : Request :=
  { q with options := { q.options with maxDepth, one_le_maxDepth := positive } }

variable {q : Request} {m m' : Nat} {hm : 1 ≤ m} {hm' : 1 ≤ m'} {root : NodeRef} {w : World σ}

/-- The start under the higher limit is the start under the lower one, raised by the difference. -/
theorem Position.start_limited (le : min m q.ceiling ≤ min m' q.ceiling) :
    start (q.limited m' hm') root w =
      (start (q.limited m hm) root w).deepen (min m' q.ceiling - min m q.ceiling) := by
  have sum : min m q.ceiling + (min m' q.ceiling - min m q.ceiling) = min m' q.ceiling :=
    Nat.add_sub_cancel' le
  simp only [start, deepen, Run.deepen, Frame.deepen, Request.frame, Request.limited, Frame.start,
    Frame.limit, sum]

/-- Where the limit is exceeded, the evaluation ends with the report of that, and no record is made
from the visit that is refused on. -/
theorem Position.IsTooDeep.runOn_evaluate {c : Position σ} (deep : c.IsTooDeep)
    (reached : (start q root w).Reaches host c) (hk : host.KeepsTrees)
    (tree : w.store.IsTree root) :
    (evaluate host q (.node root)).runOn w =
        (Act.ofAttempt (Attempt.malformed (c.run.world.store.placeOf c.value)
          (Frame.Refusal.tooDeep q.frame.maxDepth).message) : Act σ Outcome).runOn c.run.world ∧
      c.run.world.SameRecords ((evaluate host q (.node root)).runOn w).2 := by
  have sound := isSound_start q tree
  have maxDepth : c.run.frame.maxDepth = q.frame.maxDepth := (reached.depth_lt sound hk).2
  let place := c.run.world.store.placeOf c.value
  let message := (Frame.Refusal.tooDeep q.frame.maxDepth).message
  have ending := deep.ending host
  rw [maxDepth] at ending
  have csound := isSound_of_reaches reached sound hk
  have report : (Act.ofAttempt (Attempt.malformed place message) : Act σ Outcome).runOn
      c.run.world = (.error ⟨c.run.world.store.faults.size⟩, (c.ending host).2.world) := by
    rw [ending]
    rfl
  have cending : c.ending host =
      (.error ⟨c.run.world.store.faults.size⟩, (c.ending host).2) := by
    rw [ending]
    rfl
  obtain ⟨d, below, broken⟩ := (ending_eq_error_iff_reaches csound hk).1 cending
  have ends := (ending_eq_error_iff_reaches sound hk).2 ⟨d, reached.trans below, broken⟩
  rw [Position.runOn_evaluate, ends, report]
  refine ⟨rfl, ?_⟩
  rw [ending]
  exact ⟨rfl, rfl, rfl, rfl⟩

/-- Of two evaluations of a tree that differ in the limit on the depth only, the one under the lower
limit is cut off by it exactly if the other one visits a node that is not open while as many nodes
are open as the lower limit allows; in a tree as the constructors build it no node is visited while
it is open. If it is not cut off, the two end alike. If it is, it ends with the report of that,
with the records of the other evaluation up to the first visit of this kind, and these are the
first records of the whole of it as far as the host takes none away. -/
theorem runOn_evaluate_limited (hk : host.KeepsTrees) (q : Request) {m m' : Nat} (hm : 1 ≤ m)
    (hm' : 1 ≤ m') (le : min m q.ceiling ≤ min m' q.ceiling) {root : NodeRef} {w : World σ}
    (tree : w.store.IsTree root) :
    let low := Position.start (q.limited m hm) root w
    let high := Position.start (q.limited m' hm') root w
    let limit := min m q.ceiling
    let shorter := (evaluate host (q.limited m hm) (.node root)).runOn w
    let longer := (evaluate host (q.limited m' hm') (.node root)).runOn w
    (low.Exceeds host ↔ ∃ d, high.Reaches host d ∧ d.Attempts limit) ∧
    (w.store.IsBuilt root →
      ∀ d, high.Reaches host d → d.value.identity ∉ d.run.frame.stack) ∧
    (¬low.Exceeds host → shorter = longer) ∧
    ∀ c, low.Reaches host c → c.IsTooDeep →
      shorter = (Act.ofAttempt (Attempt.malformed (c.run.world.store.placeOf c.value)
        (Frame.Refusal.tooDeep limit).message) : Act σ Outcome).runOn c.run.world ∧
      ∃ d, d.node = c.node ∧ d.run.world = c.run.world ∧ high.Reaches host d ∧ d.Attempts limit ∧
        (∀ d', high.Reaches host d' → d'.Attempts limit → d' = d ∨ high.Precedes host d d') ∧
        d.run.world.SameRecords shorter.2 ∧ d.run.Leads host (high.ending host).2 ∧
        (host.AddsRecords → shorter.2.Extends longer.2) := by
  intro low high limit shorter longer
  let k := min m' q.ceiling - min m q.ceiling
  have deepened : high = low.deepen k := Position.start_limited le
  have sound : low.IsSound := Position.isSound_start _ tree
  have highSound : high.IsSound := Position.isSound_start _ tree
  refine ⟨?_, fun built d reached => reached.closed highSound hk rfl built, fun free => ?_, ?_⟩
  · rw [deepened]
    exact Position.exceeds_iff sound hk k
  · have ends := Position.ending_deepen sound hk free k
      (rfl : low.ending host = ((low.ending host).1, (low.ending host).2))
    rw [← deepened] at ends
    show shorter = ((high.ending host).1, (high.ending host).2.world)
    rw [ends]
    rfl
  · intro c reached deep
    obtain ⟨report, records⟩ := deep.runOn_evaluate reached hk tree
    have csound := Position.isSound_of_reaches reached sound hk
    have attempts := (Position.isTooDeep_iff csound).1 deep
    rw [(reached.depth_lt sound hk).2] at attempts
    have there : high.Reaches host (c.deepen k) := deepened ▸ reached.deepen sound hk k
    have here : (c.deepen k).run.Leads host ((c.deepen k).ending host).2 := steps_evalNode _ _ _
    have onwards : (c.deepen k).run.Leads host (high.ending host).2 :=
      here.trans (there.leads_ending highSound hk)
    refine ⟨report, c.deepen k, rfl, rfl, there, attempts.deepen k, fun d' hd' attempts' => ?_,
      records, onwards, fun adds => records.extends.trans (onwards.extends adds)⟩
    rw [deepened] at hd' ⊢
    exact Position.eq_or_precedes_of_attempts sound hk reached deep k hd' attempts'

/-- An operator whose operands are one and the same literal. -/
def nullTree : Attempt NodeRef :=
  Attempt.doubled (.literal .null) .onNull .null

/-- The world in which the tree was made. -/
def nullWorld : World Unit :=
  ⟨(nullTree.runOn Store.empty).2, .empty, #[], ()⟩

/-- The tree has two levels: it is cut off under a limit of one and not under a limit of two. -/
theorem runOn_evaluate_limited_nullTree :
    let low := Request.standard.limited 1 (by decide)
    let high := Request.standard.limited 2 (by decide)
    Host.idle.KeepsTrees ∧ nullWorld.store.IsTree ⟨1⟩ ∧
    (∃ o w', (evaluate Host.idle high (.node ⟨1⟩)).runOn nullWorld = (.ok o, w') ∧
      o.result = .success .null) ∧
    (Position.start low ⟨1⟩ nullWorld).Exceeds Host.idle ∧
    (∃ d, (Position.start high ⟨1⟩ nullWorld).Reaches Host.idle d ∧ d.Attempts 1) ∧
    ((evaluate Host.idle low (.node ⟨1⟩)).runOn nullWorld).2.Extends
      ((evaluate Host.idle high (.node ⟨1⟩)).runOn nullWorld).2 := by
  intro low high
  have made : nullTree.runOn Store.empty = (.ok ⟨1⟩, nullWorld.store) := rfl
  have tree : nullWorld.store.IsTree ⟨1⟩ :=
    (Attempt.isBuilt_of_doubled (Store.knows_all rfl) (by decide) made).tree
  obtain ⟨exceeds, -, alike, first⟩ := runOn_evaluate_limited keepsTrees_idle Request.standard
    (Nat.le_refl 1) (Nat.le_succ 1) (by decide) tree
  have fails : ((evaluate Host.idle low (.node ⟨1⟩)).runOn nullWorld).1 = .error ⟨0⟩ := rfl
  have ends : ((evaluate Host.idle high (.node ⟨1⟩)).runOn nullWorld).1 =
    .ok ⟨⟨1⟩, .success .null⟩ := rfl
  have cut : (Position.start low ⟨1⟩ nullWorld).Exceeds Host.idle := by
    by_contra free
    have same := congrArg Prod.fst (alike free)
    cases fails.symm.trans (same.trans ends)
  have runs : (evaluate Host.idle high (.node ⟨1⟩)).runOn nullWorld =
      (.ok ⟨⟨1⟩, .success .null⟩, ((evaluate Host.idle high (.node ⟨1⟩)).runOn nullWorld).2) :=
    by rw [← ends]
  have ⟨c, reached, deep⟩ := cut
  obtain ⟨-, d, -, -, -, -, -, -, -, records⟩ := first c reached deep
  exact ⟨keepsTrees_idle, tree, ⟨_, _, runs, rfl⟩, cut, exceeds.1 cut, records addsRecords_idle⟩

/-- An operator whose left operand is the operator itself. -/
def loopWorld : World Unit :=
  ⟨{ Store.empty with
    nodes := #[⟨.fallback .onFault (.node ⟨0⟩) (.node ⟨1⟩), .null, []⟩,
      ⟨.literal .null, .null, []⟩] }, .empty, #[], ()⟩

theorem isTree_loopWorld : loopWorld.store.IsTree ⟨0⟩ := by
  have operands : (loopWorld.store.form ⟨0⟩).operands = [.node ⟨0⟩, .node ⟨1⟩] := rfl
  intro m reached
  have only : m = ⟨0⟩ ∨ m = ⟨1⟩ := by
    induction reached with
    | refl => exact .inl rfl
    | tail _ operand ih =>
      obtain rfl | rfl := ih
      · rw [Store.Operand, operands] at operand
        simpa using operand
      · cases operand
  obtain rfl | rfl := only
  · refine ⟨by decide, trivial, fun v hv => ?_⟩
    rw [operands] at hv
    simp only [List.mem_cons, List.not_mem_nil, or_false] at hv
    exact hv.elim (fun same => ⟨_, same⟩) fun same => ⟨_, same⟩
  · exact ⟨by decide, trivial, fun v hv => (List.not_mem_nil hv).elim⟩

/-- The message among the arguments of a fault; null stands for arguments of another kind. -/
def Fault.messageText (e : Fault) : Value :=
  match e.args with
  | .tuple [.str message _] _ => .str message Store.noStamp
  | _ => .null

/-- The message of the fault that an evaluation ends with; null stands for that of an outcome. -/
def messageOf (ends : Except FaultRef Outcome × World σ) : Value :=
  match ends with
  | (.error e, w) => (w.store.fault e).messageText
  | (.ok _, _) => .null

theorem messageOf_malformed (place : Value) (message : String) (w : World σ) :
    messageOf ((Act.ofAttempt (Attempt.malformed place message) : Act σ Outcome).runOn w) =
      .str message Store.noStamp := by
  rw [Act.runOn_ofAttempt, Attempt.runOn_malformed]
  exact congrArg Fault.messageText (Store.fault_addFault_self _ _)

/-- A circle is refused as such under any limit, although a node is visited while as many nodes are
open as the lower limit allows. -/
theorem not_exceeds_iff_of_loop :
    let low := Request.standard.limited 1 (by decide)
    let high := Request.standard.limited 2 (by decide)
    loopWorld.store.IsTree ⟨0⟩ ∧
    ¬((Position.start low ⟨0⟩ loopWorld).Exceeds Host.idle ↔
      ∃ d, (Position.start high ⟨0⟩ loopWorld).Reaches Host.idle d ∧ d.run.frame.depth = 1) := by
  intro low high
  refine ⟨isTree_loopWorld, fun same => ?_⟩
  let p := Position.start high ⟨0⟩ loopWorld
  let opened : Run Unit := ((enterNode Host.idle p.value).runOn p.run).2
  have entered : p.Progress Host.idle [] opened := .entered (by decide) rfl
  have visits : p.Visits Host.idle [] ⟨1, ⟨0⟩, opened⟩ := ⟨rfl, opened, 0, entered, rfl⟩
  obtain ⟨c, reached, deep⟩ := same.2 ⟨_, visits.reaches, rfl⟩
  -- the report says that there is a circle, and not that the tree is too deep
  have report := (deep.runOn_evaluate reached keepsTrees_idle isTree_loopWorld).1
  have circle : messageOf ((evaluate Host.idle low (.node ⟨0⟩)).runOn loopWorld) =
      .str "cyclic expression tree" Store.noStamp := rfl
  rw [report, messageOf_malformed] at circle
  have texts := (Value.str.inj circle).1
  exact absurd texts (by decide)

end Fallback
