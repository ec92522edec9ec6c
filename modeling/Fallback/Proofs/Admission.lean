import Fallback.Proofs.Assembly

/-!
What the constructors accept.

`Form.isAdmissible` says what a constructor asks of the fields that it is given: a name that is a
text and not empty, nodes where there have to be nodes, something that can be raised. A callable
stands for a literal in the place of a callee, and a text for a fault in the place of a raised one.
A constructor makes a node of admissible fields (`exists_node`) and rejects all others with the
report of a broken tree at the place of the node (`exists_rejection`).

There is one exception. The report on a bad name quotes the name, where the other reports quote the
name of a type, and a value may have no text: an integer with too many digits, or a value that is
nested too deep. Then it is the failure to quote it that is raised (`Form.rejection`).
-/
namespace Fallback

namespace Form

/-- The fields hold what the constructor of the form asks for. -/
def isAdmissible (s : Store) : Form → Bool
  | .literal _ => true
  | .reference name => (s.text? name).any fun t => t ≠ ""
  | .call callee args =>
    (callee.isNode || callee.isCallable) && ((s.items? args).getD []).all Value.isNode
  | .fallback _ lhs rhs => [lhs, rhs].all Value.isNode
  | .ternary condition thenBranch elseBranch => [condition, thenBranch, elseBranch].all Value.isNode
  | .raise exception =>
    (s.text? exception).isSome || exception.fault?.any fun e => (s.fault e).kind.isOrdinary

/-- The arguments of a call are a list or a tuple. -/
def ListsArgs : Form → Prop
  | .call _ args => (∃ vs stamp, args = .list vs stamp) ∨ ∃ vs stamp, args = .tuple vs stamp
  | _ => True

/-- The kind of the fault with which the constructor of the form rejects fields. -/
def rejection (s : Store) : Form → FaultKind
  | .reference name =>
    match s.quotedText name with
    | .ok _ => .malformed
    | .error m => m.kind
  | _ => .malformed

/-- The fields hold nothing but what was made, as do the arguments of a call. -/
structure IsKnown (s : Store) (f : Form) : Prop where
  values : ∀ v ∈ f.values, s.Knows v
  arguments : ∀ callee args vs, f = .call callee args → s.items? args = some vs →
    ∀ v ∈ vs, s.Knows v

/-- What stands where a name should be can be quoted in a message. -/
def IsQuotable (s : Store) (f : Form) : Prop :=
  ∀ name m, f = .reference name → s.quotedText name ≠ .error m

/-- Only a bad name that cannot be quoted is rejected with another fault than the report of a broken
tree. -/
theorem rejection_eq_malformed_iff (s : Store) (f : Form) :
    f.rejection s = .malformed ↔ f.IsQuotable s := by
  cases f with
  | reference name =>
    simp only [rejection]
    constructor
    · rintro same _ m ⟨⟩ shown
      rw [shown] at same
      cases m <;> cases same
    · intro shown
      cases quoted : s.quotedText name with
      | ok t => rfl
      | error m => exact absurd quoted (shown name m rfl)
  | _ => exact ⟨fun _ _ _ same => (nomatch same), fun _ => rfl⟩

end Form

/-- The fault is the report of a broken tree at the place. -/
structure Store.Rejects (s : Store) (e : FaultRef) (place : Value) : Prop where
  kind : (s.fault e).kind = .malformed
  place : (s.fault e).place = place

namespace Attempt

variable {s : Store}

theorem exists_malformed {α : Type} (place : Value) (message : String) (s : Store) :
    ∃ e t, (malformed place message : Attempt α).runOn s = (.error e, t) ∧ t.Rejects e place := by
  have made := Store.fault_addFault_self s.addStamp.2.addStamp.2
    (faultAt s .malformed place message)
  exact ⟨_, _, runOn_malformed place message s, congrArg Fault.kind made, congrArg Fault.place made⟩

/-! ## Checks -/

/-- The check of children rejects anything else than nodes, and makes no difference otherwise. -/
theorem runOn_requireNodes_all (kind : NodeKind) (place : Value) (vs : List Value) (s : Store) :
    if vs.all Value.isNode then (requireNodes kind place vs).runOn s = (.ok (), s)
    else ∃ e t, (requireNodes kind place vs).runOn s = (.error e, t) ∧ t.Rejects e place := by
  induction vs with
  | nil => rfl
  | cons v vs ih =>
    rw [List.all_cons, requireNodes]
    cases node : v.isNode with
    | true => simpa only [Bool.true_and, if_true] using ih
    | false =>
      obtain ⟨e, t, runs, rejects⟩ := exists_malformed (α := Unit) place _ s
      exact ⟨e, t, (Work.runOn_bind_ok (runOn_typeName v s) _).trans runs, rejects⟩

/-- What becomes of fields that are checked before a node is made of them. -/
def Decides (s : Store) (x : Attempt NodeRef) (accepts : Bool) (kind : NodeKind) (place : Value) :
    Prop :=
  if accepts then ∃ n t, x.runOn s = (.ok n, t) ∧ s ≤ t ∧ n.index < t.nodes.size ∧
    (t.form n).kind = kind ∧ (t.node n).place = place
  else ∃ e t, x.runOn s = (.error e, t) ∧ t.Rejects e place

theorem decides_newNode (form : Form) (place : Value) (s : Store) :
    Decides s (newNode form place) true form.kind place := by
  have made := Store.node_addNode_self s ⟨form, place, []⟩
  refine ⟨_, _, rfl, s.le_addNode _, ?_, congrArg (fun n => n.form.kind) made,
    congrArg Node.place made⟩
  show s.nodes.size < (s.nodes.push _).size
  rw [Array.size_push]
  exact Nat.lt_succ_self _

theorem decides_malformed (kind : NodeKind) (place : Value) (message : String) (s : Store) :
    Decides s (malformed place message) false kind place :=
  exists_malformed place message s

/-- What was made before stays made. -/
theorem Decides.after {α : Type} {x : Attempt α} {a : α} {f : α → Attempt NodeRef} {t : Store}
    {accepts : Bool} {kind : NodeKind} {place : Value} (first : x.runOn s = (.ok a, t))
    (le : s ≤ t) (h : Decides t (f a) accepts kind place) :
    Decides s (x >>= f) accepts kind place := by
  cases accepts with
  | true =>
    obtain ⟨n, u, runs, le', made⟩ := h
    exact ⟨n, u, (Work.runOn_bind_ok first f).trans runs, le_trans le le', made⟩
  | false =>
    obtain ⟨e, u, runs, rejects⟩ := h
    exact ⟨e, u, (Work.runOn_bind_ok first f).trans runs, rejects⟩

/-- A node over children that are checked. -/
theorem decides_checked (form : Form) (place : Value) (vs : List Value) (s : Store) :
    Decides s (do requireNodes form.kind place vs; newNode form place) (vs.all Value.isNode)
      form.kind place := by
  have checked := runOn_requireNodes_all form.kind place vs s
  cases all : vs.all Value.isNode with
  | true =>
    rw [all] at checked
    exact .after checked (le_refl s) (decides_newNode form place s)
  | false =>
    rw [all] at checked
    obtain ⟨e, t, runs, rejects⟩ := checked
    exact ⟨e, t, Work.runOn_bind_error runs _, rejects⟩

/-! ## Constructors -/

/-- A call, once a callable callee is wrapped. -/
theorem decides_callOf {callee args place : Value}
    (listed : (Form.call callee args).ListsArgs) (s : Store) :
    Decides s (do
      let args ← tupleOf args
      requireNodes .call place (callee :: (← items args))
      newNode (.call callee args) place)
      (callee.isNode && ((s.items? args).getD []).all Value.isNode) .call place := by
  have tupled (vs : List Value) (stamp : Nat) (t : Store) :
      Decides t (do
        requireNodes .call place (callee :: (← items (.tuple vs stamp)))
        newNode (.call callee (.tuple vs stamp)) place)
        (callee.isNode && vs.all Value.isNode) .call place := by
    have walked : (items (.tuple vs stamp)).runOn t = (.ok vs, t) := rfl
    have checked := decides_checked (.call callee (.tuple vs stamp)) place (callee :: vs) t
    rw [List.all_cons] at checked
    exact .after (x := items (.tuple vs stamp)) walked (le_refl t) checked
  obtain ⟨vs, stamp, rfl⟩ | ⟨vs, stamp, rfl⟩ := listed
  · have made : (tupleOf (.list vs stamp)).runOn s =
        (.ok (.tuple ((s.items? (.list vs stamp)).getD []) s.nextStamp), s.addStamp.2) := rfl
    exact .after made (Store.Change.stamp.le) (tupled _ _ _)
  · have made : (tupleOf (.tuple vs stamp)).runOn s = (.ok (.tuple vs stamp), s) := rfl
    exact .after made (le_refl s) (tupled vs stamp s)

theorem decides_call {callee args place : Value} (listed : (Form.call callee args).ListsArgs)
    (s : Store) :
    Decides s (call callee args place) ((Form.call callee args).isAdmissible s) .call place := by
  rw [call, Form.isAdmissible]
  cases callable : callee.isCallable with
  | false =>
    have kept : (pure callee : Attempt Value).runOn s = (.ok callee, s) := rfl
    rw [Bool.or_false]
    exact .after kept (le_refl s) (decides_callOf listed s)
  | true =>
    have wrapped : (Value.node <$> literal callee .null).runOn s =
        (.ok (.node ⟨s.nodes.size⟩), (s.addNode ⟨.literal callee, .null, []⟩).2) := rfl
    have same : (s.addNode ⟨.literal callee, .null, []⟩).2.items? args = s.items? args := by
      cases args <;> rfl
    rw [Bool.or_true, ← same]
    have listed : (Form.call (.node ⟨s.nodes.size⟩) args).ListsArgs := listed
    exact .after wrapped (s.le_addNode _) (decides_callOf listed _)

theorem decides_raises (exception place : Value) (s : Store) :
    Decides s (raises exception place) ((Form.raise exception).isAdmissible s) .raise place := by
  have refused : Decides s (raises.refuse exception place) false .raise place :=
    .after (runOn_typeName exception s) (le_refl s) (decides_malformed .raise place _ s)
  refine .after (Work.runOn_get s) (le_refl s) ?_
  cases named : s.text? exception with
  | some text =>
    have tupled : (tuple [exception]).runOn s =
        (.ok (.tuple [exception] s.nextStamp), s.addStamp.2) := rfl
    simp only [Form.isAdmissible, named, Option.isSome_some, Bool.true_or]
    refine .after tupled Store.Change.stamp.le ?_
    refine .after (x := newFault .recoverable _ .null []) rfl (Store.Change.fault _).le ?_
    exact decides_newNode (.raise _) place _
  | none =>
    simp only [Form.isAdmissible, named, Option.isSome_none, Bool.false_or]
    cases exception with
    | fault e =>
      simp only [Value.fault?, Option.any_some]
      cases ordinary : (s.fault e).kind.isOrdinary with
      | true => exact decides_newNode (.raise (.fault e)) place s
      | false => exact refused
    | _ => exact refused

/-- A reference is made of a name that is a text and not empty. -/
theorem runOn_reference_admissible {name place : Value}
    (admissible : (Form.reference name).isAdmissible s = true) :
    Decides s (reference name place) true .reference place := by
  refine .after (Work.runOn_get s) (le_refl s) ?_
  simp only [Form.isAdmissible] at admissible
  cases named : s.text? name with
  | none =>
    rw [named] at admissible
    cases admissible
  | some text =>
    simp only [named, Option.any_some, ne_eq, decide_not, Bool.not_eq_true',
      decide_eq_false_iff_not] at admissible
    simp only [admissible, if_false]
    exact decides_newNode (.reference name) place s

/-- Any other name is rejected, and if it cannot be quoted then for that reason. -/
theorem runOn_reference_inadmissible {name place : Value}
    (inadmissible : (Form.reference name).isAdmissible s = false) :
    ∃ e t, (reference name place).runOn s = (.error e, t) ∧
      (t.fault e).kind = (Form.reference name).rejection s ∧
      ((Form.reference name).rejection s = .malformed → t.Rejects e place) := by
  have refused : (reference name place).runOn s = (reference.refuse name place).runOn s := by
    rw [reference, Work.runOn_bind_ok (Work.runOn_get s)]
    simp only [Form.isAdmissible] at inadmissible
    cases named : s.text? name with
    | none => rfl
    | some text =>
      have empty : text = "" := by simpa [named] using inadmissible
      simp only [empty, if_true]
  rw [refused, reference.refuse, Work.runOn_bind, runOn_ask, Form.rejection]
  cases quoted : s.quotedText name with
  | ok shown =>
    obtain ⟨e, t, runs, rejects⟩ := exists_malformed (α := NodeRef) place
      ("Variable name must be a non-empty string, got " ++ shown) s
    exact ⟨e, t, runs, rejects.kind, fun _ => rejects⟩
  | error m =>
    have made := Store.fault_addFault_self s.addStamp.2.addStamp.2
      (faultAt s m.kind .null m.message)
    refine ⟨_, _, rfl, congrArg Fault.kind made, fun same => ?_⟩
    exact absurd same m.kind_ne.1

/-! ## All forms -/

/-- The constructor of the form makes a node of admissible fields, and rejects all others. It does
so with the report of a broken tree at the place wherever the fields are quotable
(`Form.rejection_eq_malformed_iff`). -/
structure IsDecided (s : Store) (f : Form) (place : Value) : Prop where
  accepts (admissible : f.isAdmissible s = true) :
    ∃ n t, (node f place).runOn s = (.ok n, t) ∧ s ≤ t ∧ n.index < t.nodes.size ∧
      (t.form n).kind = f.kind ∧ (t.node n).place = place
  rejects (inadmissible : f.isAdmissible s = false) :
    ∃ e t, (node f place).runOn s = (.error e, t) ∧ (t.fault e).kind = f.rejection s ∧
      (f.IsQuotable s → t.Rejects e place)

theorem isDecided_of_decides {f : Form} {place : Value} (rejection : f.rejection s = .malformed)
    (h : Decides s (node f place) (f.isAdmissible s) f.kind place) : IsDecided s f place := by
  refine ⟨fun admissible => ?_, fun inadmissible => ?_⟩
  · rw [admissible] at h
    exact h
  · rw [inadmissible] at h
    obtain ⟨e, t, runs, rejects⟩ := h
    exact ⟨e, t, runs, rejects.kind.trans rejection.symm, fun _ => rejects⟩

theorem isDecided_node {f : Form} (listed : f.ListsArgs) (place : Value) : IsDecided s f place := by
  cases f with
  | literal v => exact isDecided_of_decides rfl (decides_newNode (.literal v) place s)
  | reference name =>
    refine ⟨fun admissible => runOn_reference_admissible admissible, fun inadmissible => ?_⟩
    obtain ⟨e, t, runs, kind, rejects⟩ := runOn_reference_inadmissible inadmissible
    exact ⟨e, t, runs, kind, fun quotable =>
      rejects ((Form.rejection_eq_malformed_iff s _).2 quotable)⟩
  | call callee args => exact isDecided_of_decides rfl (decides_call listed s)
  | fallback op lhs rhs =>
    exact isDecided_of_decides rfl (decides_checked (.fallback op lhs rhs) place [lhs, rhs] s)
  | ternary condition thenBranch elseBranch =>
    exact isDecided_of_decides rfl (decides_checked (.ternary condition thenBranch elseBranch) place
      [condition, thenBranch, elseBranch] s)
  | raise exception => exact isDecided_of_decides rfl (decides_raises exception place s)

/-- Constructors decide by the fields alone what they make a node of, and every node that a
constructor, a chain or lowering ends with is a built tree: all nodes below it are whole, and no
path down from it goes on for ever. -/
theorem construction_checked (s : Store) :
    (∀ {f : Form} (place : Value), f.ListsArgs → IsDecided s f place) ∧
    (∀ {f : Form} {place : Value} {n : NodeRef} {t : Store}, f.IsKnown s →
      (node f place).runOn s = (.ok n, t) → t.IsBuilt n) ∧
    (∀ {op : Operator} {vs : List Value} {place v : Value} {t : Store},
      (∀ w ∈ vs, w.IsSound s) → (chain op vs place).runOn s = (.ok v, t) → v.IsBuilt t) ∧
    ∀ {v w : Value} {t : Store}, s.IsOrderly → (∀ n ∈ (s.parse v).nodes, s.IsBuilt n) →
      (lower v).runOn s = (.ok w, t) → w.IsBuilt t := by
  refine ⟨fun place listed => isDecided_node listed place, fun known made => ?_,
    fun sound made => ?_, fun orderly built made => ?_⟩
  · exact (isBuilt_of_node known.values known.arguments made).2
  · exact (gives_chain _ _ sound _ _ made).2
  · exact (gives_lower orderly built _ _ made).2

/-- A literal, and a group of a parenthesis and the literal. -/
def seedStore : Store :=
  { Store.empty with
    nodes := #[⟨.literal .null, .null, []⟩]
    tokens := #[⟨"(", .str "LPAR" 1, .str "(" 2, []⟩]
    trees := #[⟨.str "group" 3, .list [.token ⟨0⟩, .node ⟨0⟩] 4, .null, []⟩]
    nextStamp := 5 }

theorem isBuilt_seedStore : seedStore.IsBuilt ⟨0⟩ :=
  ⟨.of_trees [] (by decide) trivial rfl nofun, .intro _ fun _ operand => nomatch operand⟩

/-- A callable is called with the literal, a chain joins the literal to itself, and the group is
lowered to it; null is rejected as a name, and so is an integer with too many digits, for another
reason. -/
theorem construction_checked_of_seed :
    (∃ n t, (node (.call (.routine ⟨0⟩) (.list [.node ⟨0⟩] 5)) .null).runOn seedStore = (.ok n, t) ∧
      t.IsBuilt n) ∧
    (∃ v t, (chain .onNull [.node ⟨0⟩, .node ⟨0⟩] .null).runOn seedStore = (.ok v, t) ∧
      v.IsBuilt t) ∧
    (∃ v t, (lower (.tree ⟨0⟩)).runOn seedStore = (.ok v, t) ∧ v.IsBuilt t) ∧
    (∃ e t, (node (.reference .null) .null).runOn seedStore = (.error e, t) ∧
      (t.fault e).kind = .malformed) ∧
    ∃ e t, (node (.reference (.int (.ofNat digitBound) 5)) .null).runOn seedStore = (.error e, t) ∧
      (t.fault e).kind = .badValue := by
  obtain ⟨decided, made, chained, lowered⟩ := construction_checked seedStore
  have call : (Form.call (.routine ⟨0⟩) (.list [.node ⟨0⟩] 5)).IsKnown seedStore := by
    refine ⟨Store.knows_all rfl, ?_⟩
    rintro _ _ vs ⟨⟩ ⟨⟩
    exact List.forall_mem_singleton.2 (Store.knows_node isBuilt_seedStore)
  have known : Value.IsSound seedStore (.node ⟨0⟩) := by
    rintro _ ⟨⟩
    exact isBuilt_seedStore
  have within : ∀ n ∈ (seedStore.parse (.tree ⟨0⟩)).nodes, seedStore.IsBuilt n := by
    have nodes : (seedStore.parse (.tree ⟨0⟩)).nodes = [⟨0⟩] := rfl
    rw [nodes]
    exact List.forall_mem_singleton.2 isBuilt_seedStore
  obtain ⟨e, t, rejects, kind, -⟩ := (decided .null (f := .reference .null) trivial).rejects rfl
  obtain ⟨e', t', rejects', kind', -⟩ :=
    (decided .null (f := .reference (.int (.ofNat digitBound) 5)) trivial).rejects rfl
  have both : ∀ w ∈ [Value.node ⟨0⟩, .node ⟨0⟩], w.IsSound seedStore :=
    List.forall_mem_cons.2 ⟨known, List.forall_mem_singleton.2 known⟩
  have runs : (lower (.tree ⟨0⟩)).runOn seedStore = (.ok (.node ⟨0⟩), seedStore) := rfl
  have unshown : (Form.reference (.int (.ofNat digitBound) 5)).rejection seedStore = .badValue := by
    decide +kernel
  exact ⟨⟨_, _, rfl, made call rfl⟩, ⟨_, _, rfl, chained both rfl⟩,
    ⟨_, _, runs, lowered (Store.isOrderly_of_additions rfl) within runs⟩, ⟨e, t, rejects, kind⟩,
    ⟨e', t', rejects', kind'.trans unshown⟩⟩

end Attempt

end Fallback
