import Fallback.Proofs.Comparison
import Fallback.Proofs.Number
import Fallback.Proofs.Reading

/-!
What a node says, without its places.

`Blueprint.Describes` is `Blueprint.Shows` without the positions: it says what a node and the nodes
below it are, and neither where they stand nor what text value exactly a name is. Equality looks at
nothing else. A node that shows an expression is equal to one that the expression describes
(`Blueprint.Shows.areEqual`), and there are two reasons why this may not be found out: the
expression holds a number that is no number, which differs from itself, or it is so high that the
comparison runs out of depth.
-/
namespace Fallback

namespace Blueprint

mutual

/-- The expression without its marks. -/
def unmarked : Blueprint → Blueprint
  | .literal _ c => .literal none c
  | .reference _ name => .reference none name
  | .call _ callee args => .call none callee.unmarked (unmarkedAll args)
  | .fallback _ op lhs rhs => .fallback none op lhs.unmarked rhs.unmarked
  | .ternary _ condition thenBranch elseBranch =>
    .ternary none condition.unmarked thenBranch.unmarked elseBranch.unmarked
  | .node n kind => .node n kind

/-- The expressions without their marks. -/
def unmarkedAll : List Blueprint → List Blueprint
  | [] => []
  | b :: bs => b.unmarked :: unmarkedAll bs

end

mutual

/-- The number of expressions on the longest way down. -/
def height : Blueprint → Nat
  | .literal _ _ | .reference _ _ | .node _ _ => 1
  | .call _ callee args => max callee.height (heightOfAll args) + 1
  | .fallback _ _ lhs rhs => max lhs.height rhs.height + 1
  | .ternary _ condition thenBranch elseBranch =>
    max condition.height (max thenBranch.height elseBranch.height) + 1

/-- The height of the highest expression of a list. -/
def heightOfAll : List Blueprint → Nat
  | [] => 0
  | b :: bs => max b.height (heightOfAll bs)

end

mutual

/-- Every number in the expression is a number. -/
def IsNumeric : Blueprint → Prop
  | .literal _ c => c ≠ .number (.float .notANumber)
  | .reference _ _ | .node _ _ => True
  | .call _ callee args => callee.IsNumeric ∧ AreNumeric args
  | .fallback _ _ lhs rhs => lhs.IsNumeric ∧ rhs.IsNumeric
  | .ternary _ condition thenBranch elseBranch =>
    condition.IsNumeric ∧ thenBranch.IsNumeric ∧ elseBranch.IsNumeric

/-- Every number in the expressions is a number. -/
def AreNumeric : List Blueprint → Prop
  | [] => True
  | b :: bs => b.IsNumeric ∧ AreNumeric bs

end

mutual

/-- The node is the expression, wherever it stands. -/
def Describes (s : Store) : Blueprint → NodeRef → Prop
  | .literal _ c, n => ∃ v, s.form n = .literal v ∧ c.Is v
  | .reference _ name, n => ∃ v, s.form n = .reference v ∧ s.text? v = some name
  | .call _ callee args, n => ∃ c items stamp, s.form n = .call (.node c) (.tuple items stamp) ∧
      callee.Describes s c ∧ DescribeAll s args items
  | .fallback _ op lhs rhs, n => ∃ l r, s.form n = .fallback op (.node l) (.node r) ∧
      lhs.Describes s l ∧ rhs.Describes s r
  | .ternary _ condition thenBranch elseBranch, n => ∃ c t e,
      s.form n = .ternary (.node c) (.node t) (.node e) ∧
        condition.Describes s c ∧ thenBranch.Describes s t ∧ elseBranch.Describes s e
  | .node m _, n => n = m

/-- The values are nodes that are the expressions, one for each. -/
def DescribeAll (s : Store) : List Blueprint → List Value → Prop
  | [], [] => True
  | b :: bs, v :: vs => (∃ n, v = .node n ∧ b.Describes s n) ∧ DescribeAll s bs vs
  | _, _ => False

end

variable {s t : Store}

/-! ## Descriptions -/

mutual

theorem Shows.describes : ∀ {b : Blueprint} {n : NodeRef}, b.Shows s n → b.Describes s n
  | .literal _ _, _, h => Shows.form h
  | .reference _ _, _, h => by
    obtain ⟨stamp, form⟩ := Shows.form h
    exact ⟨_, form, rfl⟩
  | .call _ _ _, _, h => by
    obtain ⟨c, items, stamp, form, callee, args⟩ := Shows.form h
    exact ⟨c, items, stamp, form, callee.describes, args.describeAll⟩
  | .fallback _ _ _ _, _, h => by
    obtain ⟨l, r, form, lhs, rhs⟩ := Shows.form h
    exact ⟨l, r, form, lhs.describes, rhs.describes⟩
  | .ternary _ _ _ _, _, h => by
    obtain ⟨c, t, e, form, condition, thenBranch, elseBranch⟩ := Shows.form h
    exact ⟨c, t, e, form, condition.describes, thenBranch.describes, elseBranch.describes⟩
  | .node _ _, _, h => h.1

theorem ShowAll.describeAll : ∀ {bs : List Blueprint} {vs : List Value}, ShowAll s bs vs →
    DescribeAll s bs vs
  | [], [], _ => trivial
  | _ :: _, _ :: _, ⟨⟨n, same, shows⟩, rest⟩ => ⟨⟨n, same, shows.describes⟩, rest.describeAll⟩

end

theorem kind_unmarked (b : Blueprint) : b.unmarked.kind = b.kind := by
  cases b <;> rfl

mutual

/-- Marks do not count in a description. -/
theorem describes_unmarked : ∀ (b : Blueprint) {n : NodeRef},
    b.unmarked.Describes s n ↔ b.Describes s n
  | .literal _ _, _ => Iff.rfl
  | .reference _ _, _ => Iff.rfl
  | .call _ callee args, _ => by
    simp only [unmarked, Describes, describes_unmarked callee, describeAll_unmarkedAll args]
  | .fallback _ _ lhs rhs, _ => by
    simp only [unmarked, Describes, describes_unmarked lhs, describes_unmarked rhs]
  | .ternary _ condition thenBranch elseBranch, _ => by
    simp only [unmarked, Describes, describes_unmarked condition, describes_unmarked thenBranch,
      describes_unmarked elseBranch]
  | .node _ _, _ => Iff.rfl

theorem describeAll_unmarkedAll : ∀ (bs : List Blueprint) {vs : List Value},
    DescribeAll s (unmarkedAll bs) vs ↔ DescribeAll s bs vs
  | [], _ => Iff.rfl
  | _ :: _, [] => Iff.rfl
  | b :: bs, _ :: _ => by
    simp only [unmarkedAll, DescribeAll, describes_unmarked b, describeAll_unmarkedAll bs]

end

end Blueprint

/-! ## Equality -/

theorem sameOr_of_related {related : Value → Value → Compared} {v w : Value}
    (h : related v w = .ok true) : sameOr related v w = .ok true := by
  rw [sameOr]
  split
  · rfl
  · exact h

theorem relatedItems_cons {related : Value → Value → Compared} {v w : Value} {vs ws : List Value}
    (first : related v w = .ok true) (rest : relatedItems related vs ws = .ok true) :
    relatedItems related (v :: vs) (w :: ws) = .ok true := by
  rw [relatedItems, first]
  exact rest

/-- Values that are one constant are equal, if it is not a number that is none. -/
theorem Constant.Is.sameOr_equal {s : Store} {c : Constant} {v w : Value} (hv : c.Is v)
    (hw : c.Is w) (numeric : c ≠ .number (.float .notANumber)) (depth : Nat) :
    sameOr (s.equal (depth + 1)) v w = .ok true := by
  cases c with
  | null =>
    obtain rfl : v = .null := hv
    obtain rfl : w = .null := hw
    exact sameOr_self _ _
  | truth b =>
    obtain rfl : v = .bool b := hv
    obtain rfl : w = .bool b := hw
    exact sameOr_self _ _
  | number x =>
    cases x with
    | integer n =>
      obtain ⟨stamp, rfl⟩ := hv
      obtain ⟨stamp', rfl⟩ := hw
      refine sameOr_of_related ?_
      simp [Store.equal, Store.listItems?, Store.text?, equalNumbers, Value.int?]
    | float x =>
      cases x with
      | number x =>
        obtain ⟨stamp, rfl⟩ := hv
        obtain ⟨stamp', rfl⟩ := hw
        have same : x.equals x = true := (Binary64.equals_eq_true_iff x x).2 (.inl rfl)
        refine sameOr_of_related ?_
        simp [Store.equal, Store.listItems?, Store.text?, equalNumbers, Value.int?, same]
      | notANumber => exact absurd rfl numeric
  | text t =>
    obtain ⟨stamp, rfl⟩ := hv
    obtain ⟨stamp', rfl⟩ := hw
    refine sameOr_of_related ?_
    simp [Store.equal, Store.listItems?, Store.text?]

namespace Store

/-- A text is equal to every value that is the text. -/
theorem sameOr_equal_text {s : Store} {t : String} {stamp : Nat} {w : Value}
    (h : s.text? w = some t) (depth : Nat) :
    sameOr (s.equal (depth + 1)) (.str t stamp) w = .ok true := by
  refine sameOr_of_related ?_
  cases w with
  | str u stamp' =>
    cases h
    simp [Store.equal, Store.listItems?, Store.text?]
  | token r =>
    cases h
    simp [Store.equal, Store.listItems?, Store.text?]
  | _ => cases h

/-- Nodes of one kind are equal if their fields are. -/
theorem sameOr_equal_node {s : Store} {m n : NodeRef} {depth : Nat}
    (kind : (s.form m).kind = (s.form n).kind)
    (fields : relatedItems (sameOr (s.equal depth)) (s.form m).values (s.form n).values =
      .ok true) :
    sameOr (s.equal (depth + 3)) (.node m) (.node n) = .ok true := by
  refine sameOr_of_related ?_
  simp only [Store.equal, kind, if_true]
  exact fields

/-- A comparison with more depth gives the same answer, unless there was too little before. -/
theorem equal_eq_or_of_le {s : Store} {n m : Nat} (le : n ≤ m) (v w : Value) :
    s.equal n v w = .error .tooDeep ∨ s.equal m v w = s.equal n v w := by
  induction le with
  | refl => exact .inr rfl
  | @step m _ ih =>
    obtain deep | same := ih
    · exact .inl deep
    · obtain deep | same' := (s.deepens m).equal v w
      · exact .inl (same.symm.trans deep)
      · exact .inr (same'.trans same)

end Store

namespace Blueprint

variable {s : Store}

mutual

/-- A node that shows an expression is equal to one that the expression describes. -/
theorem Shows.sameOr_equal : ∀ {b : Blueprint} {m n : NodeRef} {depth : Nat}, b.Shows s m →
    b.Describes s n → b.IsNumeric → 4 * b.height ≤ depth →
    sameOr (s.equal depth) (.node m) (.node n) = .ok true
  | b, m, n, depth, shows, describes, numeric, deep => by
    obtain ⟨below, rfl⟩ : ∃ below, depth = below + 1 + 3 := by
      have : 0 < b.height := by cases b <;> simp [height]
      exact ⟨depth - 4, by omega⟩
    have form := shows.form
    cases b with
    | literal mark c =>
      obtain ⟨v, same, is⟩ := form
      obtain ⟨w, same', is'⟩ := describes
      refine Store.sameOr_equal_node (by rw [same, same']; rfl) ?_
      rw [same, same']
      exact relatedItems_cons (is.sameOr_equal is' numeric below) rfl
    | reference mark name =>
      obtain ⟨stamp, same⟩ := form
      obtain ⟨w, same', named⟩ := describes
      refine Store.sameOr_equal_node (by rw [same, same']; rfl) ?_
      rw [same, same']
      exact relatedItems_cons (Store.sameOr_equal_text named below) rfl
    | call mark callee args =>
      obtain ⟨c, items, stamp, same, first, rest⟩ := form
      obtain ⟨c', items', stamp', same', first', rest'⟩ := describes
      rw [height] at deep
      have callees : sameOr (s.equal (below + 1)) (.node c) (.node c') = .ok true :=
        first.sameOr_equal first' numeric.1 (by omega)
      have tuples : sameOr (s.equal (below + 1)) (.tuple items stamp) (.tuple items' stamp') =
          .ok true := by
        refine sameOr_of_related ?_
        rw [Store.equal]
        exact rest.relatedItems_equal rest' numeric.2 (by omega)
      refine Store.sameOr_equal_node (by rw [same, same']; rfl) ?_
      rw [same, same']
      exact relatedItems_cons callees (relatedItems_cons tuples rfl)
    | fallback mark op lhs rhs =>
      obtain ⟨l, r, same, first, second⟩ := form
      obtain ⟨l', r', same', first', second'⟩ := describes
      rw [height] at deep
      refine Store.sameOr_equal_node (by rw [same, same']; rfl) ?_
      rw [same, same']
      exact relatedItems_cons (first.sameOr_equal first' numeric.1 (by omega))
        (relatedItems_cons (second.sameOr_equal second' numeric.2 (by omega)) rfl)
    | ternary mark condition thenBranch elseBranch =>
      obtain ⟨c, t, e, same, first, second, third⟩ := form
      obtain ⟨c', t', e', same', first', second', third'⟩ := describes
      rw [height] at deep
      refine Store.sameOr_equal_node (by rw [same, same']; rfl) ?_
      rw [same, same']
      exact relatedItems_cons (first.sameOr_equal first' numeric.1 (by omega))
        (relatedItems_cons (second.sameOr_equal second' numeric.2.1 (by omega))
          (relatedItems_cons (third.sameOr_equal third' numeric.2.2 (by omega)) rfl))
    | node k kind =>
      obtain rfl : m = k := shows.1
      obtain rfl : n = m := describes
      exact sameOr_self _ _

theorem ShowAll.relatedItems_equal : ∀ {bs : List Blueprint} {vs ws : List Value} {depth : Nat},
    ShowAll s bs vs → DescribeAll s bs ws → AreNumeric bs → 4 * heightOfAll bs ≤ depth →
    relatedItems (sameOr (s.equal depth)) vs ws = .ok true
  | [], [], [], _, _, _, _, _ => rfl
  | b :: bs, _ :: _, _ :: _, depth, ⟨⟨m, same, shows⟩, rest⟩, ⟨⟨n, same', describes⟩, rest'⟩,
      numeric, deep => by
    subst same same'
    rw [heightOfAll] at deep
    exact relatedItems_cons (shows.sameOr_equal describes numeric.1 (by omega))
      (rest.relatedItems_equal rest' numeric.2 (by omega))

end

/-- A node that shows an expression is equal to one that the expression describes, unless the
comparison runs out of depth. -/
theorem Shows.areEqual {b : Blueprint} {m n : NodeRef} (shows : b.Shows s m)
    (describes : b.Describes s n) (numeric : b.IsNumeric) :
    s.areEqual (.node m) (.node n) = .ok true ∨
      s.areEqual (.node m) (.node n) = .error .tooDeep ∧
        s.interpreter.valueDepth < 4 * b.height := by
  have few : 3 ≤ s.interpreter.valueDepth := s.interpreter.le_valueDepth (by decide)
  have equal {depth : Nat} (deep : 4 * b.height ≤ depth) (enough : 3 ≤ depth) :
      s.equal depth (.node m) (.node n) = .ok true := by
    by_cases same : m = n
    · obtain ⟨below, rfl⟩ := Nat.exists_eq_add_of_le' enough
      subst same
      simp only [Store.equal, if_true]
      exact relatedItems_refl (sameOr_self _) _
    · have found := shows.sameOr_equal describes numeric deep
      rwa [sameOr, Store.isSame_node same, if_neg Bool.false_ne_true] at found
  by_cases deep : 4 * b.height ≤ s.interpreter.valueDepth
  · exact .inl (equal deep few)
  · have more : s.interpreter.valueDepth ≤ 4 * b.height := by omega
    obtain tooDeep | answered := Store.equal_eq_or_of_le (s := s) more (.node m) (.node n)
    · exact .inr ⟨tooDeep, by omega⟩
    · exact .inl (answered.symm.trans (equal (Nat.le_refl _) (Nat.le_trans few more)))

end Blueprint

end Fallback
