import Fallback.Proofs.Itinerary
import Fallback.Proofs.Slot

/-!
Occurrences of nodes in the course of an evaluation.

What happens in the course of a visit happens at its node or below it, and what happens below a slot
happens in the visit of the operand there. So an itinerary can be cut at every occurrence that is
entered: what happens at it and below it is the itinerary of the visit that is made there
(`Position.Itinerary.exists_part`). Occurrences are entered in the order of their paths, and an
operand is entered only while its node awaits its outcome.
-/
namespace Fallback

variable {σ : Type} {host : Host σ}

/-! ## Happenings at a node and below it -/

namespace Happening

/-- It happens at the node on a path, or below it. -/
def IsBelow (path : List Nat) (h : Happening) : Prop :=
  path <+: h.path

instance (path : List Nat) : DecidablePred (IsBelow path) :=
  fun h => inferInstanceAs (Decidable (path <+: h.path))

theorem enter_concat_ne {path : List Nat} {i : Nat} {n m : NodeRef} :
    (enter (path ++ [i]) n : Happening) ≠ .enter path m := by
  intro same
  have paths : path ++ [i] = path := congrArg Happening.path same
  simp at paths

/-- The paths to the nodes that are entered, in turn. -/
def entered (es : List Happening) : List (List Nat) :=
  es.filterMap fun
    | .enter path _ => some path
    | .invoke _ _ _ | .exit _ _ _ => none

theorem mem_entered {es : List Happening} {path : List Nat} :
    path ∈ entered es ↔ ∃ n, .enter path n ∈ es := by
  rw [entered, List.mem_filterMap]
  constructor
  · rintro ⟨h, mem, same⟩
    cases h with
    | enter path' n =>
      cases same
      exact ⟨n, mem⟩
    | invoke | exit => cases same
  · rintro ⟨n, mem⟩
    exact ⟨_, mem, rfl⟩

@[simp] theorem entered_append (es fs : List Happening) :
    entered (es ++ fs) = entered es ++ entered fs :=
  List.filterMap_append

@[simp] theorem entered_exit (path : List Nat) (n : NodeRef) (o : Outcome) :
    entered [.exit path n o] = [] := rfl

/-- The paths on which a node is entered, in turn. -/
def pathsTo (n : NodeRef) (es : List Happening) : List (List Nat) :=
  es.filterMap fun
    | .enter path m => if m = n then some path else none
    | .invoke _ _ _ | .exit _ _ _ => none

theorem pathsTo_cons_enter (n m : NodeRef) (path : List Nat) (es : List Happening) :
    pathsTo n (.enter path m :: es) = (if m = n then [path] else []) ++ pathsTo n es := by
  by_cases same : m = n <;> simp [pathsTo, same]

theorem mem_pathsTo {n : NodeRef} {es : List Happening} {path : List Nat} :
    path ∈ pathsTo n es ↔ .enter path n ∈ es := by
  rw [pathsTo, List.mem_filterMap]
  constructor
  · rintro ⟨h, mem, same⟩
    cases h with
    | enter way m =>
      by_cases node : m = n
      · simp only [node, if_true, Option.some.injEq] at same
        rwa [← same, ← node]
      · simp [node] at same
    | invoke | exit => cases same
  · intro mem
    exact ⟨_, mem, by simp⟩

theorem pathsTo_sublist (n : NodeRef) (es : List Happening) :
    (pathsTo n es).Sublist (entered es) := by
  induction es with
  | nil => exact .slnil
  | cons h es ih =>
    cases h with
    | enter path m =>
      by_cases node : m = n
      · simpa [pathsTo, entered, node] using ih
      · simpa [pathsTo, entered, node] using ih.cons path
    | invoke | exit => simpa [pathsTo, entered] using ih

end Happening

/-- The node on the path awaits the outcome of an operand: it was entered and not left, and of its
operands all that were entered were left. -/
structure Happening.Awaits (path : List Nat) (es : List Happening) : Prop where
  entered : ∃ n, .enter path n ∈ es
  isOpen (n : NodeRef) (o : Outcome) : .exit path n o ∉ es
  left {i : Nat} {m : NodeRef} (h : .enter (path ++ [i]) m ∈ es) :
    ∃ o, .exit (path ++ [i]) m o ∈ es

/-- What happens elsewhere does not matter to it. -/
theorem Happening.Awaits.of_filter {path : List Nat} {es : List Happening}
    (h : Awaits path (es.filter (IsBelow path))) : Awaits path es := by
  have within {x : Happening} (mem : x ∈ es) (below : x.IsBelow path) :
      x ∈ es.filter (IsBelow path) :=
    List.mem_filter.2 ⟨mem, decide_eq_true below⟩
  refine ⟨?_, fun n o mem => h.isOpen n o (within mem (List.prefix_refl _)), fun mem => ?_⟩
  · obtain ⟨n, mem⟩ := h.entered
    exact ⟨n, (List.mem_filter.1 mem).1⟩
  · obtain ⟨o, left⟩ := h.left (within mem (List.prefix_append _ _))
    exact ⟨o, (List.mem_filter.1 left).1⟩

theorem Happening.Closes.isBelow {path : List Nat} {x : Happening} (h : x.Closes path) :
    x.IsBelow path :=
  ⟨[], by rw [List.append_nil, h.path_eq]⟩

@[simp] theorem Form.entered_invocations (s : Store) (f : Form) (path : List Nat)
    (os : List Outcome) : Happening.entered (f.invocations s path os) = [] := by
  unfold invocations
  cases f.invocation? s os <;> rfl

namespace Position

variable {p c : Position σ} {path : List Nat} {es fs before after : List Happening} {st : Stage σ}
  {done : List (Nat × Outcome)} {r r' : Run σ} {q : Except FaultRef Outcome × Run σ} {i : Nat}
  {n : NodeRef} {x : Happening} {o : Outcome}

namespace Itinerary

/-- What happens in the course of a visit happens at its node or below it. -/
theorem isBelow (h : p.Itinerary host path es st) (mem : x ∈ es) : x.IsBelow path := by
  induction h with
  | refused => cases mem
  | entered =>
    obtain rfl := List.mem_singleton.1 mem
    exact List.prefix_refl _
  | visited _ _ _ _ ih ihVisit | brokenBelow _ _ _ _ ih ihVisit =>
    obtain mem | mem := List.mem_append.1 mem
    · exact ih mem
    · exact (List.prefix_append _ _).trans (ihVisit mem)
  | broken _ _ ih =>
    obtain mem | mem := List.mem_append.1 mem
    · exact ih mem
    · exact (Form.closes_of_invocations mem).isBelow
  | left _ _ _ ih | notLeft _ _ _ ih =>
    obtain mem | mem := List.mem_append.1 mem
    · exact ih mem
    · exact (Form.closes_of_end mem).isBelow

/-- While the node is open, it was entered, and all else has happened below slots that were
visited. -/
theorem mem_of_isOpen (h : p.Itinerary host path es (.isOpen done r)) (mem : x ∈ es) :
    x = .enter path p.node ∨ ∃ i ∈ done.map Prod.fst, x.IsBelow (path ++ [i]) := by
  induction h using Itinerary.isOpen_induction with
  | entered enter => exact .inl (List.mem_singleton.1 mem)
  | @visited es fs done r r' c i o _ _ _ visit ih =>
    rw [List.map_append]
    obtain mem | mem := List.mem_append.1 mem
    · obtain same | ⟨j, visited, below⟩ := ih mem
      · exact .inl same
      · exact .inr ⟨j, List.mem_append_left _ visited, below⟩
    · exact .inr ⟨i, List.mem_append_right _ List.mem_cons_self, visit.isBelow mem⟩

/-- What happens first is that the node is entered, if anything happens, and it happens only
once. -/
theorem eq_cons_of_isOpen (h : p.Itinerary host path es (.isOpen done r)) :
    ∃ more, es = .enter path p.node :: more ∧ ∀ n, .enter path n ∉ more := by
  induction h using Itinerary.isOpen_induction with
  | entered enter => exact ⟨[], rfl, fun _ => List.not_mem_nil⟩
  | @visited es fs done r r' c i o _ _ _ visit ih =>
    obtain ⟨more, rfl, once⟩ := ih
    refine ⟨more ++ fs, rfl, fun n mem => ?_⟩
    obtain mem | mem := List.mem_append.1 mem
    · exact once n mem
    · exact not_concat_isPrefix _ _ (visit.isBelow mem)

/-- The node is entered first, and once, if anything happens at all. -/
theorem eq_nil_or_cons (h : p.Itinerary host path es st) :
    es = [] ∨ ∃ more, es = .enter path p.node :: more ∧ ∀ n, .enter path n ∉ more := by
  have extend {es fs : List Happening} {done : List (Nat × Outcome)} {r : Run σ}
      (before : p.Itinerary host path es (.isOpen done r)) (away : ∀ n, .enter path n ∉ fs) :
      ∃ more, es ++ fs = .enter path p.node :: more ∧ ∀ n, .enter path n ∉ more := by
    obtain ⟨more, rfl, once⟩ := before.eq_cons_of_isOpen
    exact ⟨more ++ fs, rfl, fun n mem => (List.mem_append.1 mem).elim (once n) (away n)⟩
  cases h with
  | refused => exact .inl rfl
  | entered => exact .inr ⟨[], rfl, fun _ => List.not_mem_nil⟩
  | visited before _ _ visit | brokenBelow before _ _ visit =>
    exact .inr (extend before fun n mem => not_concat_isPrefix _ _ (visit.isBelow mem))
  | broken before => exact .inr (extend before fun n mem => Form.closes_of_invocations mem)
  | left before | notLeft before =>
    exact .inr (extend before fun n mem => Form.closes_of_end mem)

theorem node_of_enter (h : p.Itinerary host path es st) (mem : .enter path n ∈ es) :
    n = p.node := by
  obtain rfl | ⟨more, rfl, once⟩ := h.eq_nil_or_cons
  · cases mem
  · obtain same | mem := List.mem_cons.1 mem
    · cases same
      rfl
    · exact absurd mem (once n)

/-- A visit that has ended with an outcome has entered its node and left it with the outcome. -/
theorem exit_mem (h : p.Itinerary host path es (.ended (.ok o, r))) :
    .enter path p.node ∈ es ∧ .exit path p.node o ∈ es := by
  cases h with
  | left before =>
    obtain ⟨more, rfl, -⟩ := before.eq_cons_of_isOpen
    refine ⟨List.mem_cons_self, List.mem_append_right _ (List.mem_append_right _ ?_)⟩
    exact List.mem_cons_self

/-- The operands that have ended were entered and left, in the slots and with the outcomes that
the stage tells. -/
theorem exit_mem_of_done (h : p.Itinerary host path es (.isOpen done r)) (mem : (i, o) ∈ done) :
    ∃ m, .enter (path ++ [i]) m ∈ es ∧ .exit (path ++ [i]) m o ∈ es := by
  induction h using Itinerary.isOpen_induction with
  | entered => cases mem
  | @visited es fs done r r' c j o' _ _ _ visit ih =>
    obtain mem | mem := List.mem_append.1 mem
    · obtain ⟨m, enter, exit⟩ := ih mem
      exact ⟨m, List.mem_append_left _ enter, List.mem_append_left _ exit⟩
    · cases List.mem_singleton.1 mem
      obtain ⟨enter, exit⟩ := visit.exit_mem
      exact ⟨c.node, List.mem_append_right _ enter, List.mem_append_right _ exit⟩

/-- In every slot that was visited an operand was entered. -/
theorem enter_of_slot (h : p.Itinerary host path es (.isOpen done r))
    (mem : i ∈ done.map Prod.fst) : ∃ m, .enter (path ++ [i]) m ∈ es := by
  obtain ⟨⟨i, o⟩, ended, rfl⟩ := List.mem_map.1 mem
  obtain ⟨m, enter, -⟩ := h.exit_mem_of_done ended
  exact ⟨m, enter⟩

/-- An operand that was entered stands in a slot that was visited. -/
theorem slot_of_enter (h : p.Itinerary host path es (.isOpen done r))
    (mem : .enter (path ++ [i]) n ∈ es) : i ∈ done.map Prod.fst := by
  obtain same | ⟨j, visited, below⟩ := h.mem_of_isOpen mem
  · exact absurd same Happening.enter_concat_ne
  · rwa [eq_of_concat_isPrefix below (List.prefix_refl _)] at visited

/-- The operands that have ended are visited from left to right. -/
theorem slots (h : p.Itinerary host path es (.isOpen done r)) :
    p.form.Slots (done.map Prod.fst) := by
  induction h using Itinerary.isOpen_induction with
  | entered => exact p.form.slots_nil
  | visited _ _ decided _ ih =>
    rw [List.map_append]
    exact ih.concat decided (by simp)

theorem slots_concat (h : p.Itinerary host path es (.isOpen done r)) {v : Value} {r₁ : Run σ}
    (decided : (p.form.next host (done.map Prod.snd)).runOn r = (.ok (.visit i v), r₁)) :
    p.form.Slots (done.map Prod.fst ++ [i]) :=
  h.slots.concat decided (by simp)

/-- What has happened before an operand is visited has happened elsewhere. -/
theorem not_isBelow_of_isOpen (h : p.Itinerary host path es (.isOpen done r)) {v : Value}
    {r₁ : Run σ}
    (decided : (p.form.next host (done.map Prod.snd)).runOn r = (.ok (.visit i v), r₁))
    (mem : x ∈ es) : ¬x.IsBelow (path ++ [i]) := by
  intro below
  obtain rfl | ⟨j, visited, here⟩ := h.mem_of_isOpen mem
  · exact not_concat_isPrefix _ _ below
  · have less := (h.slots_concat decided).lt j visited
    rw [eq_of_concat_isPrefix here below] at less
    exact Nat.lt_irrefl _ less

/-! ## In order -/

/-- Before an operand is visited, all that was entered comes before it. -/
theorem lt_of_isOpen (h : p.Itinerary host path es (.isOpen done r)) {v : Value} {r₁ : Run σ}
    (decided : (p.form.next host (done.map Prod.snd)).runOn r = (.ok (.visit i v), r₁))
    {way way' : List Nat} (mem : way ∈ Happening.entered es) (below : path ++ [i] <+: way') :
    way < way' := by
  obtain ⟨n, mem⟩ := Happening.mem_entered.1 mem
  obtain ⟨more, rfl⟩ := below
  rw [List.append_assoc, List.singleton_append]
  obtain same | ⟨j, visited, more', here⟩ := h.mem_of_isOpen mem
  · cases same
    exact lt_append_cons path i more
  · have here : path ++ [j] ++ more' = way := here
    rw [← here, List.append_assoc, List.singleton_append]
    exact append_cons_lt_append_cons ((h.slots_concat decided).lt j visited) _ _ _

/-- Nodes are entered in the order of the paths to them. -/
theorem pairwise_entered (h : p.Itinerary host path es st) :
    (Happening.entered es).Pairwise (· < ·) := by
  induction h with
  | refused => exact .nil
  | entered => exact List.pairwise_singleton _ _
  | @visited p c path es fs done r i o r' before _ decided visit ih ihVisit
  | @brokenBelow p c path es fs done r i o r' before _ decided visit ih ihVisit =>
    rw [Happening.entered_append, List.pairwise_append]
    refine ⟨ih, ihVisit, fun way mem way' mem' => before.lt_of_isOpen decided mem ?_⟩
    obtain ⟨n, mem'⟩ := Happening.mem_entered.1 mem'
    exact visit.isBelow mem'
  | broken _ _ ih =>
    rw [Happening.entered_append, Form.entered_invocations, List.append_nil]
    exact ih
  | left _ _ _ ih | notLeft _ _ _ ih =>
    rw [Happening.entered_append, Happening.entered_append, Form.entered_invocations,
      Happening.entered_exit, List.append_nil, List.append_nil]
    exact ih

/-! ## The part of an occurrence -/

/-- What happens when the rule of a node ends happens below no other occurrence. -/
theorem filter_append_of_closes (h : p.Itinerary host path es st)
    (closes : ∀ x ∈ fs, x.Closes path) {way : List Nat} (mem : .enter way n ∈ es ++ fs)
    (other : way ≠ path) : .enter way n ∈ es ∧
      (es ++ fs).filter (Happening.IsBelow way) = es.filter (Happening.IsBelow way) := by
  obtain mem | mem := List.mem_append.1 mem
  · have above : path <+: way := h.isBelow mem
    have outside : fs.filter (Happening.IsBelow way) = [] := by
      simp only [List.filter_eq_nil_iff, decide_eq_true_eq]
      intro x hx below
      rw [Happening.IsBelow, (closes x hx).path_eq] at below
      exact other (below.eq_of_length (Nat.le_antisymm below.length_le above.length_le))
    exact ⟨mem, by rw [List.filter_append, outside, List.append_nil]⟩
  · exact (closes _ mem).elim

/-- What happens below another path than that to the node happens in the visit that is made there
and that has ended. -/
theorem filter_isBelow (h : p.Itinerary host path es st) (sound : p.IsSound)
    (hk : host.KeepsTrees) {way : List Nat} (mem : .enter way n ∈ es) (other : way ≠ path) :
    ∃ c fs q, c.node = n ∧ p.Reaches host c ∧ c.Itinerary host way fs (.ended q) ∧
      es.filter (Happening.IsBelow way) = fs := by
  have none {es : List Happening} {way : List Nat} (away : ∀ x ∈ es, ¬x.IsBelow way) :
      es.filter (Happening.IsBelow way) = [] := by
    simpa [List.filter_eq_nil_iff] using away
  induction h with
  | refused => cases mem
  | entered =>
    cases List.mem_singleton.1 mem
    exact absurd rfl other
  | @visited p c path es fs done r i o r' before budget decided visit ih ihVisit
  | @brokenBelow p c path es fs done r i o r' before budget decided visit ih ihVisit =>
    have child := (before.comesTo sound hk).isChild budget decided
    rw [List.filter_append]
    -- the occurrence is below an operand that was visited before, and nothing of this visit happens
    -- there, or it is below this operand, and nothing before this visit has happened there
    obtain mem | mem := List.mem_append.1 mem
    · obtain ⟨d, gs, q, node, reached, below, part⟩ := ih sound mem other
      refine ⟨d, gs, q, node, reached, below, ?_⟩
      rw [part, none, List.append_nil]
      intro x hx within
      obtain same | ⟨j, visited, above⟩ := before.mem_of_isOpen mem
      · cases same
        exact other rfl
      · have less := (before.slots_concat decided).lt j visited
        rw [eq_of_concat_isPrefix (above.trans within) (visit.isBelow hx)] at less
        exact Nat.lt_irrefl _ less
    · have outside : es.filter (Happening.IsBelow way) = [] := none fun x hx within =>
        before.not_isBelow_of_isOpen decided hx ((visit.isBelow mem).trans within)
      rw [outside, List.nil_append]
      by_cases here : way = path ++ [i]
      · obtain rfl := here
        refine ⟨c, fs, _, (visit.node_of_enter mem).symm, .single ⟨i, child⟩, visit, ?_⟩
        simpa [List.filter_eq_self] using fun x hx => visit.isBelow hx
      · obtain ⟨d, gs, q, node, reached, below, part⟩ :=
          ihVisit (child.isSound sound hk) mem here
        exact ⟨d, gs, q, node, .head ⟨i, child⟩ reached, below, part⟩
  | @broken p path es done r e r' before decided ih =>
    obtain ⟨mem, same⟩ :=
      before.filter_append_of_closes (fun _ => Form.closes_of_invocations) mem other
    rw [same]
    exact ih sound mem other
  | @left p path es done r o r₁ r' before decided leave ih
  | @notLeft p path es done r o r₁ e r' before decided leave ih =>
    obtain ⟨mem, same⟩ := before.filter_append_of_closes (fun _ => Form.closes_of_end) mem other
    rw [same]
    exact ih sound mem other

/-! ## Parents and siblings -/

/-- While the node is open and none of its operands is, it awaits an outcome. -/
theorem awaits_of_isOpen (h : p.Itinerary host path es (.isOpen done r)) :
    Happening.Awaits path es := by
  induction h using Itinerary.isOpen_induction with
  | entered =>
    refine ⟨⟨p.node, List.mem_cons_self⟩, fun n o mem => ?_, fun mem => ?_⟩
    · cases List.mem_singleton.1 mem
    · exact absurd (List.mem_singleton.1 mem) Happening.enter_concat_ne
  | @visited es fs done r r' c i o _ _ _ visit ih =>
    refine ⟨?_, fun n o mem => ?_, fun {j m} mem => ?_⟩
    · obtain ⟨n, mem⟩ := ih.entered
      exact ⟨n, List.mem_append_left _ mem⟩
    · obtain mem | mem := List.mem_append.1 mem
      · exact ih.isOpen n o mem
      · exact not_concat_isPrefix _ _ (visit.isBelow mem)
    · obtain mem | mem := List.mem_append.1 mem
      · obtain ⟨o', left⟩ := ih.left mem
        exact ⟨o', List.mem_append_left _ left⟩
      · have same : i = j := eq_of_concat_isPrefix (visit.isBelow mem) (List.prefix_refl _)
        obtain rfl := same
        obtain rfl := visit.node_of_enter mem
        exact ⟨o, List.mem_append_right _ visit.exit_mem.2⟩

/-- Whenever an operand of the node is entered, the node awaits its outcome. -/
theorem awaits_of_eq (h : p.Itinerary host path es st)
    (split : es = before ++ .enter (path ++ [i]) n :: after) : Happening.Awaits path before := by
  have closing {path : List Nat} {es fs after : List Happening} (closes : ∀ x ∈ fs, x.Closes path)
      (split : es ++ fs = before ++ .enter (path ++ [i]) n :: after) :
      ∃ after, es = before ++ .enter (path ++ [i]) n :: after := by
    obtain earlier | ⟨more, -, rfl⟩ := eq_append_cons_of_append split
    · exact earlier
    · exact (closes _ (List.mem_append_right _ List.mem_cons_self)).elim
  induction h generalizing after with
  | refused => simp at split
  | @entered p path r budget enter =>
    have mem : .enter (path ++ [i]) n ∈ [Happening.enter path p.node] :=
      split ▸ List.mem_append_right _ List.mem_cons_self
    exact absurd (List.mem_singleton.1 mem) Happening.enter_concat_ne
  | @visited p c path es fs done r j o r' opened _ decided visit ih
  | @brokenBelow p c path es fs done r j o r' opened _ decided visit ih =>
    obtain ⟨after, earlier⟩ | ⟨more, rfl, rfl⟩ := eq_append_cons_of_append split
    · exact ih earlier
    · have mem : .enter (path ++ [i]) n ∈ more ++ .enter (path ++ [i]) n :: after :=
        List.mem_append_right _ List.mem_cons_self
      have same : j = i := eq_of_concat_isPrefix (visit.isBelow mem) (List.prefix_refl _)
      obtain rfl := same
      -- the entering of the operand is what its visit starts with, and happens in it only once
      rcases more with _ | ⟨x, more⟩
      · rw [List.append_nil]
        exact opened.awaits_of_isOpen
      · obtain none | ⟨rest, first, once⟩ := visit.eq_nil_or_cons
        · cases none
        · cases first
          exact absurd (List.mem_append_right _ List.mem_cons_self) (once n)
  | broken before decided ih =>
    obtain ⟨after, earlier⟩ := closing (fun _ => Form.closes_of_invocations) split
    exact ih earlier
  | left _ _ _ ih | notLeft _ _ _ ih =>
    obtain ⟨after, earlier⟩ := closing (fun _ => Form.closes_of_end) split
    exact ih earlier

/-- Nothing is entered below a node that was not entered. -/
theorem parent_mem (h : p.Itinerary host path es st) {way : List Nat}
    (mem : .enter (way ++ [i]) n ∈ es) (below : path <+: way) : ∃ m, .enter way m ∈ es := by
  induction h with
  | refused => cases mem
  | @entered p path r budget enter =>
    have same : way ++ [i] = path := congrArg Happening.path (List.mem_singleton.1 mem)
    exact absurd (same ▸ below) (not_concat_isPrefix way i)
  | @visited p c path es fs done r j o r' opened _ decided visit ih ihVisit
  | @brokenBelow p c path es fs done r j o r' opened _ decided visit ih ihVisit =>
    obtain mem | mem := List.mem_append.1 mem
    · obtain ⟨m, mem⟩ := ih mem below
      exact ⟨m, List.mem_append_left _ mem⟩
    · obtain same | within := List.prefix_concat_iff.1 (visit.isBelow mem)
      · obtain ⟨rfl, -⟩ := List.append_inj' same rfl
        obtain ⟨m, entered⟩ := opened.awaits_of_isOpen.entered
        exact ⟨m, List.mem_append_left _ entered⟩
      · obtain ⟨m, mem⟩ := ihVisit mem within
        exact ⟨m, List.mem_append_right _ mem⟩
  | broken _ _ ih =>
    obtain mem | mem := List.mem_append.1 mem
    · obtain ⟨m, mem⟩ := ih mem below
      exact ⟨m, List.mem_append_left _ mem⟩
    · exact (Form.closes_of_invocations mem).elim
  | left _ _ _ ih | notLeft _ _ _ ih =>
    obtain mem | mem := List.mem_append.1 mem
    · obtain ⟨m, mem⟩ := ih mem below
      exact ⟨m, List.mem_append_left _ mem⟩
    · exact (Form.closes_of_end mem).elim

/-! ## Cutting at an occurrence -/

/-- The nodes that are entered are those at the ends of the paths. -/
theorem nodeAt?_of_enter (h : p.Itinerary host path es st) (sound : p.IsSound)
    (hk : host.KeepsTrees) {way : List Nat} (mem : .enter way n ∈ es) :
    ∃ more, way = path ++ more ∧ p.run.world.store.nodeAt? p.node more = some n := by
  induction h with
  | refused => cases mem
  | entered =>
    cases List.mem_singleton.1 mem
    exact ⟨[], (List.append_nil _).symm, rfl⟩
  | @visited p c path es fs done r i o r' before budget decided visit ih ihVisit
  | @brokenBelow p c path es fs done r i o r' before budget decided visit ih ihVisit =>
    obtain mem | mem := List.mem_append.1 mem
    · exact ih sound mem
    · have child := (before.comesTo sound hk).isChild budget decided
      have leads := Reaches.leads (.single ⟨i, child⟩ : p.Reaches host c)
      obtain ⟨more, rfl, there⟩ := ihVisit (child.isSound sound hk) mem
      refine ⟨i :: more, by simp, ?_⟩
      have operand : (p.run.world.store.form p.node).operands[i]? = some (.node c.node) :=
        Form.operand_of_visit decided
      rw [Store.nodeAt?, operand]
      have tree : p.run.world.store.IsTree c.node :=
        sound.tree.operand (List.mem_of_getElem? operand)
      rwa [Store.nodeAt?_of_le (leads.le hk) tree] at there
  | broken _ _ ih =>
    obtain mem | mem := List.mem_append.1 mem
    · exact ih sound mem
    · exact (Form.closes_of_invocations mem).elim
  | left _ _ _ ih | notLeft _ _ _ ih =>
    obtain mem | mem := List.mem_append.1 mem
    · exact ih sound mem
    · exact (Form.closes_of_end mem).elim

/-- A node is left where it was entered. -/
theorem enter_of_exit (h : p.Itinerary host path es st) {way : List Nat}
    (mem : .exit way n o ∈ es) : .enter way n ∈ es := by
  have closed {p : Position σ} {path : List Nat} {es fs : List Happening}
      {done : List (Nat × Outcome)} {r : Run σ} {o' : Outcome}
      (before : p.Itinerary host path es (.isOpen done r))
      (ih : .exit way n o ∈ es → .enter way n ∈ es)
      (calls : ∀ x ∈ fs, ∃ callee args, x = .invoke path callee args)
      (mem : .exit way n o ∈ es ++ (fs ++ [.exit path p.node o'])) :
      .enter way n ∈ es ++ (fs ++ [.exit path p.node o']) := by
    obtain mem | mem := List.mem_append.1 mem
    · exact List.mem_append_left _ (ih mem)
    · obtain mem | mem := List.mem_append.1 mem
      · obtain ⟨callee, args, same⟩ := calls _ mem
        cases same
      · cases List.mem_singleton.1 mem
        obtain ⟨more, rfl, -⟩ := before.eq_cons_of_isOpen
        exact List.mem_append_left _ List.mem_cons_self
  induction h with
  | refused => cases mem
  | entered => cases List.mem_singleton.1 mem
  | visited _ _ _ _ ih ihVisit | brokenBelow _ _ _ _ ih ihVisit =>
    exact List.mem_append.2 ((List.mem_append.1 mem).imp ih ihVisit)
  | broken _ _ ih =>
    obtain mem | mem := List.mem_append.1 mem
    · exact List.mem_append_left _ (ih mem)
    · obtain ⟨callee, args, same⟩ := Form.eq_invoke_of_invocations mem
      cases same
  | left before _ _ ih | notLeft before _ _ ih =>
    exact closed before ih (fun _ => Form.eq_invoke_of_invocations) mem

/-- What happens at an entered occurrence and below it is an itinerary of the visit that is made
there. -/
theorem exists_part (h : p.Itinerary host path es (.ended q)) (sound : p.IsSound)
    (hk : host.KeepsTrees) {way : List Nat} (mem : .enter way n ∈ es) :
    ∃ c q', c.node = n ∧ p.Reaches host c ∧
      c.Itinerary host way (es.filter (Happening.IsBelow way)) (.ended q') := by
  by_cases here : way = path
  · subst here
    have all : es.filter (Happening.IsBelow way) = es := by
      simpa [List.filter_eq_self] using fun x hx => h.isBelow hx
    rw [all]
    exact ⟨p, q, (h.node_of_enter mem).symm, .refl, h⟩
  · obtain ⟨c, fs, q', node, reached, below, rfl⟩ := h.filter_isBelow sound hk mem here
    exact ⟨c, q', node, reached, below⟩

end Itinerary

end Position

end Fallback
