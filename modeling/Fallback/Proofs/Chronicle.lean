import Fallback.Proofs.Occurrence
import Mathlib.Data.Set.Card

/-!
Every occurrence of a node at most once, and in order.

The happenings of an evaluation tell which occurrences of nodes are entered: each of them at most
once, in the order of the paths. This is what `Position.Chronicle` says, together with what the
forms add to it: a choice enters one branch, a call enters its operands from the first on, and an
operator or a choice hands on the very outcome of the operand that it entered last.
-/
namespace Fallback

variable {σ : Type} {host : Host σ}

/-- An operator or a choice invokes nothing. -/
theorem Form.HandsOn.invocations_eq_nil {f : Form} (handsOn : f.HandsOn) (s : Store)
    (path : List Nat) (os : List Outcome) : f.invocations s path os = [] := by
  obtain ⟨op, lhs, rhs, rfl⟩ | ⟨condition, thenBranch, elseBranch, rfl⟩ := handsOn
  · rfl
  · rfl

namespace Position

variable {p : Position σ} {path : List Nat} {es fs : List Happening} {st : Stage σ}
  {done : List (Nat × Outcome)} {r r' : Run σ} {q : Except FaultRef Outcome × Run σ} {i : Nat}
  {n : NodeRef} {o : Outcome}

/-! ## What the forms add -/

namespace Itinerary

/-- While the node is open, all slots that were visited were entered. -/
theorem exists_slots_of_isOpen (h : p.Itinerary host path es (.isOpen done r))
    (closes : ∀ x ∈ fs, x.Closes path) :
    ∃ slots, p.form.Slots slots ∧ (∀ i m, .enter (path ++ [i]) m ∈ es ++ fs → i ∈ slots) ∧
      ∀ i ∈ slots, ∀ j ∈ slots, j < i → ∃ m, .enter (path ++ [j]) m ∈ es ++ fs := by
  refine ⟨_, h.slots, fun i m mem => ?_, fun i _ j mem _ => ?_⟩
  · exact h.slot_of_enter ((List.mem_append.1 mem).resolve_right fun mem => closes _ mem)
  · obtain ⟨m, mem⟩ := h.enter_of_slot mem
    exact ⟨m, List.mem_append_left _ mem⟩

/-- The operands that were entered stand in slots that the form visits in this order, and only the
last one of them may have been refused. -/
theorem exists_slots (h : p.Itinerary host path es st) :
    ∃ slots, p.form.Slots slots ∧ (∀ i m, .enter (path ++ [i]) m ∈ es → i ∈ slots) ∧
      ∀ i ∈ slots, ∀ j ∈ slots, j < i → ∃ m, .enter (path ++ [j]) m ∈ es := by
  have nothing : ∀ x ∈ ([] : List Happening), x.Closes path := nofun
  cases h with
  | refused => exact ⟨[], p.form.slots_nil, nofun, nofun⟩
  | entered budget enter =>
    simpa using (Itinerary.entered budget enter).exists_slots_of_isOpen nothing
  | visited before budget decided visit =>
    simpa using (Itinerary.visited before budget decided visit).exists_slots_of_isOpen nothing
  | broken before => exact before.exists_slots_of_isOpen fun _ => Form.closes_of_invocations
  | left before | notLeft before =>
    exact before.exists_slots_of_isOpen fun _ => Form.closes_of_end
  | @brokenBelow _ c _ es fs done r k e r' before budget decided visit =>
    -- only the operand that has broken off may not have been entered, and it is the last one
    refine ⟨_, before.slots_concat decided, fun i m mem => ?_, fun i hi j hj less => ?_⟩
    · obtain mem | mem := List.mem_append.1 mem
      · exact List.mem_append_left _ (before.slot_of_enter mem)
      · rw [← eq_of_concat_isPrefix (visit.isBelow mem) (List.prefix_refl _)]
        exact List.mem_append_right _ List.mem_cons_self
    · obtain hj | hj := List.mem_append.1 hj
      · obtain ⟨m, mem⟩ := before.enter_of_slot hj
        exact ⟨m, List.mem_append_left _ mem⟩
      · rw [List.mem_singleton.1 hj] at less
        obtain hi | hi := List.mem_append.1 hi
        · have := (before.slots_concat decided).lt i hi
          omega
        · rw [List.mem_singleton.1 hi] at less
          exact absurd less (Nat.lt_irrefl _)

/-- Of a choice at most one branch is entered. -/
theorem not_both_of_isChoice (h : p.Itinerary host path es st) (choice : p.form.IsChoice)
    {m m' : NodeRef} (mem : .enter (path ++ [1]) m ∈ es) : .enter (path ++ [2]) m' ∉ es := by
  intro mem'
  obtain ⟨slots, fits, visited, -⟩ := h.exists_slots
  have listed := fits.choice choice
  have first := visited 1 m mem
  have second := visited 2 m' mem'
  simp only [List.mem_cons, List.not_mem_nil, or_false] at listed
  obtain rfl | rfl | rfl | rfl := listed <;> simp at first second

/-- Of any other form the operands are entered from the first on. -/
theorem exists_enter_of_lt (h : p.Itinerary host path es st) (other : ¬p.form.IsChoice)
    {m : NodeRef} (mem : .enter (path ++ [i]) m ∈ es) {j : Nat} (less : j < i) :
    ∃ m, .enter (path ++ [j]) m ∈ es := by
  obtain ⟨slots, fits, visited, entered⟩ := h.exists_slots
  have last := visited i m mem
  rw [fits.other other, List.mem_range] at last
  refine entered i (visited i m mem) j ?_ less
  rw [fits.other other, List.mem_range]
  omega

/-- A visit in which nothing happens could not enter its node. -/
theorem enter_of_nil {e : FaultRef} (h : p.Itinerary host path [] (.ended (.error e, r))) :
    (enterNode host p.value).runOn p.run = (.error e, r) := by
  have some {es fs : List Happening} {done : List (Nat × Outcome)} {r : Run σ}
      (before : p.Itinerary host path es (.isOpen done r)) : es ++ fs ≠ [] := by
    obtain ⟨more, rfl, -⟩ := before.eq_cons_of_isOpen
    simp
  generalize same : [] = es at h
  cases h with
  | refused enter => exact enter
  | brokenBelow before | broken before | notLeft before => exact absurd same.symm (some before)

/-- A call that was entered and has ended has entered its callee, or could not enter it. -/
theorem callee_entered (h : p.Itinerary host path es (.ended q)) {callee args : Value}
    (call : p.form = .call callee args) (mem : .enter path n ∈ es) (sound : p.IsSound)
    (hk : host.KeepsTrees) :
    (∃ m, .enter (path ++ [0]) m ∈ es) ∨
      ∃ c e r, p.Child host 0 c ∧ c.value = callee ∧
        (enterNode host c.value).runOn c.run = (.error e, r) := by
  have begun {es fs : List Happening} {done : List (Nat × Outcome)} {r : Run σ}
      (h : p.Itinerary host path es (.isOpen done r)) (some : done ≠ []) :
      ∃ m, .enter (path ++ [0]) m ∈ es ++ fs := by
    have other : ¬p.form.IsChoice := by
      rw [call]
      rintro ⟨_, _, _, same⟩
      cases same
    have first : 0 ∈ done.map Prod.fst := by
      rw [h.slots.other other, List.mem_range, List.length_map]
      exact List.length_pos_of_ne_nil some
    obtain ⟨m, entered⟩ := h.enter_of_slot first
    exact ⟨m, List.mem_append_left _ entered⟩
  have visits (r : Run σ) :
      (p.form.next host []).runOn r = (.ok (.visit 0 callee), r) := by
    rw [call]
    rfl
  cases h with
  | refused => cases mem
  | @brokenBelow _ c _ es fs done r i e r' before budget decided visit =>
    rcases done with _ | ⟨first, more⟩
    · have moves := (visits r).symm.trans decided
      simp only [Prod.mk.injEq, Except.ok.injEq, Move.visit.injEq] at moves
      obtain ⟨⟨rfl, value⟩, -⟩ := moves
      obtain rfl | ⟨more, rfl, -⟩ := visit.eq_nil_or_cons
      · exact .inr ⟨c, e, _, (before.comesTo sound hk).isChild budget decided, value.symm,
          visit.enter_of_nil⟩
      · exact .inl ⟨c.node, List.mem_append_right _ List.mem_cons_self⟩
    · exact .inl (begun before (List.cons_ne_nil _ _))
  | @broken _ _ es done r e r' before decided =>
    rcases done with _ | ⟨first, more⟩
    · rw [List.map_nil, visits] at decided
      cases decided
    · exact .inl (begun before (List.cons_ne_nil _ _))
  | @left _ _ es done r o r₁ r' before decided leave
  | @notLeft _ _ es done r o r₁ e r' before decided leave =>
    rcases done with _ | ⟨first, more⟩
    · rw [List.map_nil, visits] at decided
      obtain decided | decided := decided <;> cases decided
    · exact .inl (begun before (List.cons_ne_nil _ _))

/-- The outcome that a form keeps is that of the operand that was entered last. -/
theorem exit_of_keep (h : p.Itinerary host path es (.isOpen done r))
    (kept : (p.form.next host (done.map Prod.snd)).runOn r = (.ok (.keep o), r')) :
    ∃ i m, .exit (path ++ [i]) m o ∈ es ∧ ∀ j m', .enter (path ++ [j]) m' ∈ es → j ≤ i := by
  obtain ⟨front, last⟩ := List.getLast?_eq_some_iff.1 (Form.getLast?_of_keep kept)
  obtain ⟨front', back, rfl, -, ends⟩ := List.map_eq_append_iff.1 last
  obtain ⟨⟨i, o⟩, rfl, rfl⟩ := List.map_eq_singleton_iff.1 ends
  obtain ⟨m, -, exit⟩ := h.exit_mem_of_done (List.mem_append_right _ List.mem_cons_self)
  refine ⟨i, m, exit, fun j m' mem => ?_⟩
  have slots := h.slots
  have visited := h.slot_of_enter mem
  rw [List.map_append] at slots visited
  obtain earlier | here := List.mem_append.1 visited
  · exact Nat.le_of_lt (slots.lt j earlier)
  · exact Nat.le_of_eq (List.mem_singleton.1 here)

/-- An operator or a choice is left with the outcome of the operand that it visited last, unless its
own truth test has failed. -/
theorem exit_handsOn (h : p.Itinerary host path es st) (handsOn : p.form.HandsOn)
    (mem : .exit path n o ∈ es) (sound : p.IsSound) (hk : host.KeepsTrees) :
    (∃ i m, .exit (path ++ [i]) m o ∈ es ∧ ∀ j m', .enter (path ++ [j]) m' ∈ es → j ≤ i) ∨
      ∃ os r x w', p.Progress host os r ∧ p.form.HostFails host r.world os x w' := by
  have closed {es : List Happening} {done : List (Nat × Outcome)} {r r₁ : Run σ} {o' : Outcome}
      (before : p.Itinerary host path es (.isOpen done r))
      (decided : (p.form.next host (done.map Prod.snd)).runOn r = (.ok (.keep o'), r₁) ∨
        (p.form.next host (done.map Prod.snd)).runOn r = (.ok (.finish o'), r₁))
      (mem : .exit path n o ∈ es ++ [.exit path p.node o']) :
      (∃ i m, .exit (path ++ [i]) m o ∈ es ++ [.exit path p.node o'] ∧
        ∀ j m', .enter (path ++ [j]) m' ∈ es ++ [.exit path p.node o'] → j ≤ i) ∨
      ∃ os r x w', p.Progress host os r ∧ p.form.HostFails host r.world os x w' := by
    have last := (List.mem_append.1 mem).resolve_left (before.awaits_of_isOpen.isOpen n o)
    cases List.mem_singleton.1 last
    obtain kept | made := decided
    · obtain ⟨i, m, exit, latest⟩ := before.exit_of_keep kept
      refine .inl ⟨i, m, List.mem_append_left _ exit, fun j m' mem => ?_⟩
      obtain mem | mem := List.mem_append.1 mem
      · exact latest j m' mem
      · cases List.mem_singleton.1 mem
    · obtain ⟨x, w', failed⟩ := handsOn.hostFails made
      exact .inr ⟨_, r, x, w', before.comesTo sound hk, failed⟩
  cases h with
  | refused => cases mem
  | entered => cases List.mem_singleton.1 mem
  | visited before _ _ visit | brokenBelow before _ _ visit =>
    obtain mem | mem := List.mem_append.1 mem
    · exact absurd mem (before.awaits_of_isOpen.isOpen n o)
    · exact absurd (visit.isBelow mem) (not_concat_isPrefix _ _)
  | broken before decided =>
    rw [handsOn.invocations_eq_nil, List.append_nil] at mem
    exact absurd mem (before.awaits_of_isOpen.isOpen n o)
  | left before decided | notLeft before decided =>
    rw [handsOn.invocations_eq_nil, List.nil_append] at mem ⊢
    exact closed before decided mem

end Itinerary

/-! ## The whole evaluation -/

/-- What the happenings of a visit say, with paths that start at its node. -/
structure Chronicle (host : Host σ) (p : Position σ) (es : List Happening) : Prop where
  /-- Occurrences of nodes are entered. -/
  occurs {path : List Nat} {n : NodeRef} (h : .enter path n ∈ es) :
    p.run.world.store.nodeAt? p.node path = some n
  /-- They are entered in the order of their paths, and so no one of them twice. -/
  inOrder : (Happening.entered es).Pairwise (· < ·)
  /-- An operand is entered only while its node is open, and when all the operands of that node that
  were entered before have been left. -/
  awaited {before after : List Happening} {path : List Nat} {i : Nat} {n : NodeRef}
    (h : es = before ++ .enter (path ++ [i]) n :: after) : Happening.Awaits path before
  /-- A choice enters at most one branch. -/
  choice {path : List Nat} {n m m' : NodeRef} (h : .enter path n ∈ es)
    (form : (p.run.world.store.form n).IsChoice) (branch : .enter (path ++ [1]) m ∈ es) :
    .enter (path ++ [2]) m' ∉ es
  /-- A call enters its callee before all arguments, and no argument before those on its left. -/
  call {path : List Nat} {n m : NodeRef} {callee args : Value} {i j : Nat}
    (h : .enter path n ∈ es) (form : p.run.world.store.form n = .call callee args)
    (operand : .enter (path ++ [i]) m ∈ es) (less : j < i) : ∃ m, .enter (path ++ [j]) m ∈ es
  /-- A call enters its callee, unless that cannot be entered, which ends the evaluation. -/
  callee {path : List Nat} {n : NodeRef} {callee args : Value} (h : .enter path n ∈ es)
    (form : p.run.world.store.form n = .call callee args) :
    (∃ m, .enter (path ++ [0]) m ∈ es) ∨
      ∃ c e r, p.Reaches host c ∧ c.value = callee ∧
        (enterNode host c.value).runOn c.run = (.error e, r) ∧ p.ending host = (.error e, r)
  /-- An operator or a choice is left with the very outcome of the operand that it entered last,
  unless its own truth test has failed. -/
  handsOn {path : List Nat} {n : NodeRef} {o : Outcome} (h : .exit path n o ∈ es)
    (form : (p.run.world.store.form n).HandsOn) :
    (∃ i m, .exit (path ++ [i]) m o ∈ es ∧ ∀ j m', .enter (path ++ [j]) m' ∈ es → j ≤ i) ∨
      ∃ c q os r x w', c.node = n ∧ p.Reaches host c ∧
        c.Itinerary host path (es.filter (Happening.IsBelow path)) (.ended q) ∧
        c.Progress host os r ∧ c.form.HostFails host r.world os x w'

theorem Itinerary.chronicle (h : p.Itinerary host [] es (.ended q)) (sound : p.IsSound)
    (hk : host.KeepsTrees) : p.Chronicle host es := by
  have occurs {path : List Nat} {n : NodeRef} (mem : .enter path n ∈ es) :
      p.run.world.store.nodeAt? p.node path = some n := by
    obtain ⟨more, rfl, there⟩ := h.nodeAt?_of_enter sound hk mem
    exact there
  have form {c : Position σ} {path : List Nat} (mem : .enter path c.node ∈ es)
      (reached : p.Reaches host c) : c.form = p.run.world.store.form c.node :=
    Store.form_eq_of_le (reached.leads.le hk) (sound.tree.nodeAt? (occurs mem)).whole.made
  have within {path way : List Nat} {x : Happening} (mem : x ∈ es) (path_eq : x.path = way)
      (below : path <+: way) : x ∈ es.filter (Happening.IsBelow path) :=
    List.mem_filter.2 ⟨mem, decide_eq_true (by rwa [Happening.IsBelow, path_eq])⟩
  have outside {path : List Nat} {x : Happening}
      (mem : x ∈ es.filter (Happening.IsBelow path)) : x ∈ es := (List.mem_filter.1 mem).1
  refine ⟨occurs, h.pairwise_entered, ?_, ?_, ?_, ?_, ?_⟩
  · intro before after path i n split
    have mem : .enter (path ++ [i]) n ∈ es := split ▸ List.mem_append_right _ List.mem_cons_self
    obtain ⟨m, parent⟩ := h.parent_mem mem List.nil_prefix
    obtain ⟨c, q', -, -, part⟩ := h.exists_part sound hk parent
    have split' : es.filter (Happening.IsBelow path) =
        before.filter (Happening.IsBelow path) ++
          .enter (path ++ [i]) n :: after.filter (Happening.IsBelow path) := by
      rw [split, List.filter_append, List.filter_cons_of_pos]
      exact decide_eq_true (List.prefix_append _ _)
    exact .of_filter (part.awaits_of_eq split')
  · intro path n m m' mem choice branch branch'
    obtain ⟨c, q', rfl, reached, part⟩ := h.exists_part sound hk mem
    exact part.not_both_of_isChoice ((form mem reached).symm ▸ choice)
      (within branch rfl (List.prefix_append _ _)) (within branch' rfl (List.prefix_append _ _))
  · intro path n m callee args i j mem call operand less
    obtain ⟨c, q', rfl, reached, part⟩ := h.exists_part sound hk mem
    have other : ¬c.form.IsChoice := by
      rw [form mem reached, call]
      rintro ⟨_, _, _, same⟩
      cases same
    obtain ⟨m', entered⟩ :=
      part.exists_enter_of_lt other (within operand rfl (List.prefix_append _ _)) less
    exact ⟨m', outside entered⟩
  · intro path n callee args mem call
    obtain ⟨c, q', rfl, reached, part⟩ := h.exists_part sound hk mem
    have csound := isSound_of_reaches reached sound hk
    obtain ⟨m, entered⟩ | ⟨d, e, r, child, value, fails⟩ :=
      part.callee_entered ((form mem reached).trans call)
        (within mem rfl (List.prefix_refl _)) csound hk
    · exact .inl ⟨m, outside entered⟩
    · have reached' : p.Reaches host d := reached.tail ⟨0, child⟩
      exact .inr ⟨d, e, r, reached', value, fails,
        (ending_eq_error_iff_reaches sound hk).2 ⟨d, reached', .entering fails⟩⟩
  · intro path n o mem handsOn
    have entered := h.enter_of_exit mem
    obtain ⟨c, q', rfl, reached, part⟩ := h.exists_part sound hk entered
    have csound := isSound_of_reaches reached sound hk
    obtain ⟨i, m, exit, last⟩ | ⟨os, r, x, w', progress, fails⟩ :=
      part.exit_handsOn ((form entered reached).symm ▸ handsOn)
        (within mem rfl (List.prefix_refl _)) csound hk
    · exact .inl ⟨i, m, outside exit, fun j m' mem =>
        last j m' (within mem rfl (List.prefix_append _ _))⟩
    · exact .inr ⟨c, q', os, r, x, w', rfl, reached, part, progress, fails⟩

/-- A node is counted once for every path on which it is entered. -/
theorem count_record (es : List Happening) (n : NodeRef) :
    (Trace.empty.record (Happening.notices es)).count (.node n) =
      (Happening.pathsTo n es).length := by
  have events (depth : Int) :
      (Notice.events depth (Happening.notices es)).countP (TraceEvent.enters (.node n)) =
        (Happening.pathsTo n es).length := by
    induction es generalizing depth with
    | nil => rfl
    | cons x es ih =>
      cases x with
      | enter path m =>
        have head : Happening.notices (.enter path m :: es) =
          .enter (.node m) :: Happening.notices es := rfl
        rw [head, Notice.events_cons, List.countP_cons, ih, Happening.pathsTo_cons_enter]
        by_cases same : m = n <;>
          simp [Notice.event, TraceEvent.enters, Value.isSame, Value.identity, same]
      | invoke path callee args => exact ih depth
      | exit path m o =>
        have head : Happening.notices (.exit path m o :: es) =
          .exit (.node m) o.toValue :: Happening.notices es := rfl
        rw [head, Notice.events_cons, List.countP_cons, ih]
        rfl
  rw [(Trace.isFaithful_empty.record _).count, Trace.events_record]
  exact events 0

/-- A node is entered at most as often as it occurs. -/
theorem Chronicle.count_le (h : p.Chronicle host es) (n : NodeRef) :
    ((Trace.empty.record (Happening.notices es)).count (.node n) : ℕ∞) ≤
      {path | p.run.world.store.nodeAt? p.node path = some n}.encard := by
  have once : (Happening.pathsTo n es).Nodup :=
    (h.inOrder.imp fun less => ne_of_lt less).sublist (Happening.pathsTo_sublist n es)
  have card := List.toFinset_card_of_nodup once
  rw [count_record, ← card, ← Set.encard_coe_eq_coe_finsetCard]
  refine Set.encard_le_encard fun path mem => ?_
  rw [Finset.mem_coe, List.mem_toFinset] at mem
  exact h.occurs (Happening.mem_pathsTo.1 mem)

end Position

/-- An evaluation with a trace that has seen nothing, whose host adds nothing to the trace, enters
occurrences of nodes, in the order of their paths and so each at most once. The trace notes what
happens, and it counts a node at most as often as the node occurs in the tree. -/
theorem runOn_evaluate_inOrder (hk : host.KeepsTrees) (ht : host.KeepsTrace) {q : Request}
    {root : NodeRef} {w : World σ} (tree : w.store.IsTree root) (traced : q.traced = true)
    (fresh : w.trace = .empty) :
    ∃ es, (Position.start q root w).Itinerary host [] es
        (.ended ((Position.start q root w).ending host)) ∧
      ((evaluate host q (.node root)).runOn w).2.trace =
        Trace.empty.record (Happening.notices es) ∧
      (Position.start q root w).Chronicle host es ∧
      ∀ n, (((evaluate host q (.node root)).runOn w).2.trace.count (.node n) : ℕ∞) ≤
          {path | w.store.nodeAt? root path = some n}.encard ∧
        ((∀ path path', w.store.nodeAt? root path = some n → w.store.nodeAt? root path' = some n →
            path = path') →
          ((evaluate host q (.node root)).runOn w).2.trace.count (.node n) ≤ 1) := by
  have sound := Position.isSound_start q tree
  obtain ⟨es, itinerary⟩ := Position.exists_itinerary sound hk []
  have trace := itinerary.trace_eq sound hk ht traced
  have start : (Position.start q root w).run.world.trace = .empty := fresh
  have chronicle := itinerary.chronicle sound hk
  rw [start] at trace
  have noted : ((evaluate host q (.node root)).runOn w).2.trace =
      Trace.empty.record (Happening.notices es) := by
    rw [Position.runOn_evaluate]
    exact trace
  refine ⟨es, itinerary, noted, chronicle, fun n => ?_⟩
  rw [noted]
  have count := chronicle.count_le n
  refine ⟨count, fun unshared => ?_⟩
  have one : {path | w.store.nodeAt? root path = some n}.encard ≤ 1 :=
    Set.encard_le_one_iff.2 fun path path' here there => unshared path path' here there
  exact_mod_cast count.trans one

/-- Where an operator has the same reference on both sides, and it stands for null, the reference is
entered on both paths. -/
theorem runOn_evaluate_inOrder_of_sharing :
    let q : Request := { Request.standard with environment := [("x", .null)], traced := true }
    Host.idle.KeepsTrees ∧ Host.idle.KeepsTrace ∧ sharingWorld.store.IsTree ⟨1⟩ ∧
    sharingWorld.trace = .empty ∧
    ∃ es, (Position.start q ⟨1⟩ sharingWorld).Itinerary Host.idle [] es
        (.ended ((Position.start q ⟨1⟩ sharingWorld).ending Host.idle)) ∧
      (Position.start q ⟨1⟩ sharingWorld).Chronicle Host.idle es ∧
      (Trace.empty.record (Happening.notices es)).count (.node ⟨0⟩) = 2 := by
  intro q
  have made : sharingTree.runOn Store.empty = (.ok ⟨1⟩, sharingWorld.store) := rfl
  have tree := (Attempt.isBuilt_of_doubled (Store.knows_all rfl) (by decide) made).tree
  have keeps : Host.idle.KeepsTrace := ⟨fun _ _ _ => rfl, fun _ _ => rfl⟩
  obtain ⟨es, itinerary, trace, chronicle, -⟩ :=
    runOn_evaluate_inOrder keepsTrees_idle keeps (q := q) tree rfl rfl
  refine ⟨keepsTrees_idle, keeps, tree, rfl, es, itinerary, chronicle, ?_⟩
  rw [← trace]
  decide +kernel

/-! ## A call at the limit -/

/-- A call of a literal without arguments. -/
def callStore : Store :=
  { Store.empty with
    nodes := #[⟨.literal .null, .null, []⟩,
      ⟨.call (.node ⟨0⟩) (.tuple [] Store.noStamp), .null, []⟩] }

/-- The world with this store. -/
def callWorld : World Unit :=
  ⟨callStore, .empty, #[], ()⟩

theorem isTree_callStore : callStore.IsTree ⟨1⟩ := by
  have callee : callStore.IsTree ⟨0⟩ := .of_trees [] (by decide) trivial rfl nofun
  exact .of_trees [⟨0⟩] (by decide) ⟨[], _, rfl⟩ rfl (List.forall_mem_singleton.2 callee)

/-- With room for one open node the call is entered, and its callee is not. -/
theorem order_of_call_at_limit :
    let q : Request :=
      { Request.standard with options := ⟨1, .bool false, Nat.le_refl 1⟩, traced := true }
    Host.idle.KeepsTrees ∧ Host.idle.KeepsTrace ∧ callStore.IsTree ⟨1⟩ ∧
    callStore.form ⟨1⟩ = .call (.node ⟨0⟩) (.tuple [] Store.noStamp) ∧
    ((evaluate Host.idle q (.node ⟨1⟩)).runOn callWorld).2.trace.order = [.node ⟨1⟩] :=
  ⟨keepsTrees_idle, ⟨fun _ _ _ => rfl, fun _ _ => rfl⟩, isTree_callStore, rfl, rfl⟩

end Fallback
