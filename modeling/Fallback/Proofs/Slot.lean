import Fallback.Proofs.Agreement
import Mathlib.Data.List.Lex

/-!
Paths down a tree, and the slots of a form.

A node may be shared, so it can occur in a tree at many paths. A path gives the slot of the operand
at each step, and `Store.nodeAt?` follows it. In the order of paths, one comes before those that go
on from it, and the slots are read from left to right.

`Form.Slots` says which operands of a form are visited, and in which order.
-/
namespace Fallback

variable {σ : Type} {host : Host σ}

/-! ## Paths -/

theorem lt_append_cons (path : List Nat) (i : Nat) (more : List Nat) :
    path < path ++ i :: more := by
  have less : path ++ [] < path ++ i :: more := List.append_left_lt (List.nil_lt_cons i more)
  rwa [List.append_nil] at less

theorem append_cons_lt_append_cons {i j : Nat} (less : i < j) (path more more' : List Nat) :
    path ++ i :: more < path ++ j :: more' :=
  List.append_left_lt (List.cons_lt_cons_iff.2 (.inl less))

/-- Below different slots there is nothing in common. -/
theorem eq_of_concat_isPrefix {path more : List Nat} {i j : Nat} (h : path ++ [i] <+: more)
    (h' : path ++ [j] <+: more) : i = j := by
  obtain ⟨s, rfl⟩ := h
  rw [List.append_assoc, List.prefix_append_right_inj] at h'
  exact (List.cons_prefix_cons.1 h').1.symm

theorem not_concat_isPrefix (path : List Nat) (i : Nat) : ¬path ++ [i] <+: path := by
  intro h
  have := h.length_le
  rw [List.length_append, List.length_singleton] at this
  omega

/-- A list that is cut at an element is cut in its first part or in its second. -/
theorem eq_append_cons_of_append {α : Type} {es fs before after : List α} {x : α}
    (h : es ++ fs = before ++ x :: after) :
    (∃ more, es = before ++ x :: more) ∨ ∃ more, before = es ++ more ∧ fs = more ++ x :: after := by
  obtain ⟨more, first, second⟩ | ⟨more, first, second⟩ := List.append_eq_append_iff.1 h
  · exact .inr ⟨more, first, second⟩
  · rcases more with _ | ⟨y, more⟩
    · exact .inr ⟨[], by simpa using first.symm, second.symm⟩
    · cases second
      exact .inl ⟨more, first⟩

/-- The node at the end of a path down from a node. -/
def Store.nodeAt? (s : Store) (n : NodeRef) : List Nat → Option NodeRef
  | [] => some n
  | i :: path =>
    match (s.form n).operands[i]? with
    | some (.node m) => s.nodeAt? m path
    | _ => none

/-- A tree keeps its nodes where they are. -/
theorem Store.nodeAt?_of_le {s t : Store} (h : s ≤ t) {n : NodeRef} (tree : s.IsTree n)
    (path : List Nat) : t.nodeAt? n path = s.nodeAt? n path := by
  induction path generalizing n with
  | nil => rfl
  | cons i path ih =>
    rw [nodeAt?, nodeAt?, form_eq_of_le h tree.whole.made]
    rcases operand : (s.form n).operands[i]? with _ | v
    · rfl
    · cases v with
      | node m => exact ih (tree.operand (List.mem_of_getElem? operand))
      | _ => rfl

/-- What is found on a path down a tree is a tree. -/
theorem Store.IsTree.nodeAt? {s : Store} {n m : NodeRef} (tree : s.IsTree n) {path : List Nat}
    (h : s.nodeAt? n path = some m) : s.IsTree m := by
  induction path generalizing n with
  | nil =>
    cases h
    exact tree
  | cons i path ih =>
    rw [Store.nodeAt?] at h
    split at h
    · next k operand => exact ih (tree.operand (List.mem_of_getElem? operand)) h
    · cases h

/-! ## Slots -/

section Slots

variable {os : List Outcome} {r r' : Run σ} {i : Nat} {v : Value}

/-- The operand in a slot is the one that is visited. -/
theorem Form.operand_of_visit {f : Form} (h : (f.next host os).runOn r = (.ok (.visit i v), r')) :
    f.operands[i]? = some v := by
  cases f.next_decides h with
  | first operand => exact operand
  | more _ _ _ operand => exact operand
  | catches _ _ operand => exact operand

/-- A choice visits its condition, and then one of its branches. -/
theorem slot_of_nextOfTernary {condition thenBranch elseBranch : Value}
    (h : (nextOfTernary host condition thenBranch elseBranch os).runOn r =
      (.ok (.visit i v), r')) : os = [] ∧ i = 0 ∨ os.length = 1 ∧ (i = 1 ∨ i = 2) := by
  rcases os with _ | ⟨⟨self, w | e⟩, _ | ⟨second, more⟩⟩
  · cases h
    exact .inl ⟨rfl, rfl⟩
  · obtain same | same | ⟨o, same⟩ := nextOnTruth_cases h
    · cases same
      exact .inr ⟨rfl, .inl rfl⟩
    · cases same
      exact .inr ⟨rfl, .inr rfl⟩
    · cases same
  · cases h
  · cases h
  · cases h

/-- The form is a choice. -/
def Form.IsChoice (f : Form) : Prop :=
  ∃ condition thenBranch elseBranch, f = .ternary condition thenBranch elseBranch

/-- Any other form visits its operands one after the other. -/
theorem Form.slot_of_visit {f : Form} (h : (f.next host os).runOn r = (.ok (.visit i v), r'))
    (other : ¬f.IsChoice) : i = os.length := by
  cases f with
  | literal w | reference name | raise exception =>
    obtain ⟨o, same, -⟩ := finish_of_make h
    cases same
  | ternary condition thenBranch elseBranch => exact absurd ⟨_, _, _, rfl⟩ other
  | call callee args =>
    rcases os with _ | ⟨first, more⟩
    · cases h
      rfl
    · simp only [next, nextOfCall] at h
      split at h
      · cases h
      · split at h
        · cases h
          rfl
        · obtain ⟨o, same, -⟩ := finish_of_make h
          cases same
  | fallback op lhs rhs =>
    rcases os with _ | ⟨current, _ | ⟨second, more⟩⟩
    · cases h
      rfl
    · cases Form.next_decides h with
      | @more _ _ k _ _ _ _ _ _ operand =>
        obtain ⟨less, -⟩ := List.getElem?_eq_some_iff.1 operand
        have bound : k + 1 < 2 := less
        rw [List.length_singleton]
        omega
      | catches => rfl
    · cases h

/-- The slots of the operands that a form visits, in this order: a choice visits its condition and
one branch, and any other form visits its operands from the first on. -/
structure Form.Slots (f : Form) (slots : List Nat) : Prop where
  choice (h : f.IsChoice) : slots ∈ [[], [0], [0, 1], [0, 2]]
  other (h : ¬f.IsChoice) : slots = List.range slots.length

theorem Form.slots_nil (f : Form) : f.Slots [] :=
  ⟨fun _ => List.mem_cons_self, fun _ => rfl⟩

theorem Form.Slots.concat {f : Form} {slots : List Nat} (h : f.Slots slots)
    (decided : (f.next host os).runOn r = (.ok (.visit i v), r'))
    (length : slots.length = os.length) : f.Slots (slots ++ [i]) := by
  constructor
  · intro choice
    obtain ⟨condition, thenBranch, elseBranch, rfl⟩ := choice
    have fits := h.choice ⟨condition, thenBranch, elseBranch, rfl⟩
    simp only [List.mem_cons, List.not_mem_nil, or_false] at fits
    obtain ⟨rfl, rfl⟩ | ⟨one, branch⟩ := slot_of_nextOfTernary decided
    · obtain rfl : slots = [] := List.eq_nil_of_length_eq_zero length
      decide
    · rw [one] at length
      obtain rfl | rfl | rfl | rfl := fits
      · cases length
      · obtain rfl | rfl := branch <;> decide
      · cases length
      · cases length
  · intro other
    rw [Form.slot_of_visit decided other, ← length, List.length_append, List.length_singleton,
      List.range_succ, ← h.other other]

/-- Operands are visited from left to right. -/
theorem Form.Slots.pairwise {f : Form} {slots : List Nat} (h : f.Slots slots) :
    slots.Pairwise (· < ·) := by
  by_cases choice : f.IsChoice
  · have fits := h.choice choice
    simp only [List.mem_cons, List.not_mem_nil, or_false] at fits
    obtain rfl | rfl | rfl | rfl := fits <;> decide
  · rw [h.other choice]
    exact List.pairwise_lt_range

theorem Form.Slots.lt {f : Form} {slots : List Nat} (h : f.Slots (slots ++ [i])) :
    ∀ j ∈ slots, j < i :=
  fun j hj => (List.pairwise_append.1 h.pairwise).2.2 j hj i List.mem_cons_self

/-- The form hands on the outcome of an operand: it is an operator or a choice. -/
def Form.HandsOn (f : Form) : Prop :=
  (∃ op lhs rhs, f = .fallback op lhs rhs) ∨ f.IsChoice

/-- After a truth test a rule finishes with an outcome of its own only where the test has failed. -/
theorem truthTest_of_finish {w : Value} {onTrue onFalse : Move} {o : Outcome}
    (h : (nextOnTruth host w onTrue onFalse).runOn r = (.ok (.finish o), r'))
    (ifTrue : onTrue ≠ .finish o) (ifFalse : onFalse ≠ .finish o) :
    ∃ x w', (truthTest host w).runOn r.world = (.error x, w') := by
  rcases tested : (truthTest host w).runOn r.world with ⟨x | b, w'⟩
  · exact ⟨x, w', rfl⟩
  · rw [nextOnTruth, Work.runOn_bind, Eval.runOn_ofAct, runOn_truthOrFailure, tested] at h
    cases b with
    | true =>
      cases h
      exact absurd rfl ifTrue
    | false =>
      cases h
      exact absurd rfl ifFalse

/-- Such a form makes an outcome of its own only where its truth test has failed. -/
theorem Form.HandsOn.hostFails {f : Form} (handsOn : f.HandsOn) {o : Outcome}
    (h : (f.next host os).runOn r = (.ok (.finish o), r')) :
    ∃ x w', f.HostFails host r.world os x w' := by
  obtain ⟨op, lhs, rhs, rfl⟩ | ⟨condition, thenBranch, elseBranch, rfl⟩ := handsOn
  · obtain ⟨m, settled, moves⟩ | ⟨self, w, rfl, rfl, asked⟩ | ⟨self, e, rfl, rfl, falls⟩ :=
      nextOfFallback_cases host op lhs rhs os
    · rw [next, settled] at h
      cases h
      exact absurd rfl (moves o)
    · rw [next, asked] at h
      obtain ⟨x, w', failed⟩ := truthTest_of_finish h (by simp) (by simp)
      exact ⟨x, w', .operatorTest rfl failed⟩
    · rw [next, falls] at h
      obtain ⟨u, r₁, -, h⟩ := Work.runOn_bind_eq_ok.1 h
      cases h
  · obtain ⟨m, settled, moves⟩ | ⟨self, w, rfl, asked⟩ :=
      nextOfTernary_cases host condition thenBranch elseBranch os
    · rw [next, settled] at h
      cases h
      exact absurd rfl (moves o)
    · rw [next, asked] at h
      obtain ⟨x, w', failed⟩ := truthTest_of_finish h (by simp) (by simp)
      exact ⟨x, w', .choiceTest rfl failed⟩

/-- The outcome that a form keeps is the last one. -/
theorem Form.getLast?_of_keep {f : Form} {o : Outcome}
    (h : (f.next host os).runOn r = (.ok (.keep o), r')) : os.getLast? = some o := by
  cases f.next_decides h with
  | handsOn last => exact last
  | keeps last => exact last

end Slots

end Fallback
