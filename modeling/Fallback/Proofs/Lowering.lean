import Fallback.Proofs.Failure
import Fallback.Proofs.Reading
import Mathlib.Data.List.Forall2

/-!
Lowering against the walk.

`Attempt.Follows` compares an attempt with what is expected of it, a result or the kind of a fault,
and `Lowering.Follows` does the same for work that carries along the mode of the walk. There is one
lemma for each function of the transformation, up to `Attempt.lowers_of_reads`: lowering a
tree ends as the verdict on the tree says.
-/
namespace Fallback

/-! ## Attempts that end as expected -/

namespace Attempt

variable {s t : Store} {α α' β β' : Type}

/-- The attempt ends as expected, with a result that the relation allows or with a fault of the
kind, and makes nothing but what lowering makes. -/
def Follows (s : Store) (x : Attempt α) (expected : Except FaultKind β)
    (R : Store → β → α → Prop) : Prop :=
  match expected with
  | .ok b => ∃ a t, x.runOn s = (.ok a, t) ∧ s.Grows t ∧ R t b a
  | .error k => ∃ e t, x.runOn s = (.error e, t) ∧ s.Grows t ∧ e.index < t.faults.size ∧
      (t.fault e).kind = k

namespace Follows

variable {x y : Attempt α} {f : α → Attempt α'} {m : Except FaultKind β}
  {g : β → Except FaultKind β'} {R : Store → β → α → Prop} {R' : Store → β' → α' → Prop}

theorem pure {a : α} {b : β} (h : R s b a) : Follows s (pure a) (.ok b) R :=
  ⟨a, s, rfl, .refl s, h⟩

/-- What was made before stays made. -/
theorem after {a : α} (first : x.runOn s = (.ok a, t)) (grows : s.Grows t) {m : Except FaultKind β'}
    (h : Follows t (f a) m R') : Follows s (x >>= f) m R' := by
  have runs := Work.runOn_bind_ok first f
  cases m with
  | ok b =>
    obtain ⟨a', u, rest, grows', holds⟩ := h
    exact ⟨a', u, runs.trans rest, grows.trans grows', holds⟩
  | error k =>
    obtain ⟨e, u, rest, grows', there, kind⟩ := h
    exact ⟨e, u, runs.trans rest, grows.trans grows', there, kind⟩

/-- Nothing comes after a fault. -/
theorem refuse {k : FaultKind} (hx : Follows s x (.error k) R) :
    Follows s (x >>= f) (.error k) R' := by
  obtain ⟨e, t, runs, grows, there, kind⟩ := hx
  exact ⟨e, t, Work.runOn_bind_error runs f, grows, there, kind⟩

theorem bind (hx : Follows s x m R)
    (hf : ∀ t b a, s.Grows t → R t b a → Follows t (f a) (g b) R') :
    Follows s (x >>= f) (m >>= g) R' := by
  cases m with
  | ok b =>
    obtain ⟨a, t, runs, grows, holds⟩ := hx
    exact after runs grows (hf t b a grows holds)
  | error k => exact hx.refuse

/-- Work that is expected to go on. -/
theorem andThen {b : β} {m : Except FaultKind β'} (hx : Follows s x (.ok b) R)
    (hf : ∀ t a, s.Grows t → R t b a → Follows t (f a) m R') : Follows s (x >>= f) m R' := by
  obtain ⟨a, t, runs, grows, holds⟩ := hx
  exact after runs grows (hf t a grows holds)

end Follows

section Faults

variable {R : Store → β → α → Prop}

/-- A fault with a message that was just made is there. -/
theorem follows_throw {x : Attempt α} {kind : FaultKind} {place : Value} {message : String}
    (runs : x.runOn s = (.error ⟨s.faults.size⟩,
      (s.addStamp.2.addStamp.2.addFault (faultAt s kind place message)).2)) :
    Follows s x (.error kind) R := by
  refine ⟨_, _, runs, .faultAt s kind place message, ?_, ?_⟩
  · show s.faults.size < (s.faults.push _).size
    rw [Array.size_push]
    exact Nat.lt_succ_self _
  · exact congrArg Fault.kind (Store.fault_addFault_self s.addStamp.2.addStamp.2 _)

theorem follows_malformed (place : Value) (message : String) :
    Follows s (malformed place message : Attempt α) (.error .malformed) R :=
  follows_throw (runOn_malformed place message s)

theorem follows_misuse (m : Misuse) : Follows s (misuse m : Attempt α) (.error m.kind) R :=
  follows_throw (runOn_misuse m s)

end Faults

/-! ## Positions and nodes -/

theorem runOn_truth {v : Value} (own : v.isHosted = false) (s : Store) :
    (truth v).runOn s = (.ok (s.truth v), s) := by
  cases v with
  | object r => cases own
  | _ => rfl

theorem runOn_isBlank {v : Value} {mark : Mark} (marked : s.Marked v mark) :
    (isBlank v).runOn s = (.ok ((s.attribute? v blankName).any s.truth), s) := by
  rw [isBlank, Work.runOn_bind_ok (Work.runOn_get s)]
  cases blank : s.attribute? v blankName with
  | none => rfl
  | some b => exact runOn_truth (marked.told b blank) s

theorem runOn_mark? {v : Value} {mark : Mark} (marked : s.Marked v mark) :
    (mark? v).runOn s = (.ok mark, s) := by
  have marks := marked.marks
  rw [mark?, Work.runOn_bind_ok (runOn_isBlank marked)]
  split at marks
  · next blank =>
    rw [← marks, blank]
    rfl
  · next told =>
    rw [← marks, Bool.eq_false_iff.2 told]
    rfl

/-- The position of a part of the source is made of its marks. -/
theorem follows_settle {v : Value} {mark : Mark} (marked : s.Marked v mark) :
    Follows s (settle v) (.ok mark) Store.Places := by
  refine .after (runOn_mark? marked) (.refl s) ?_
  cases mark with
  | none => exact .pure rfl
  | some marks =>
    refine ⟨_, _, rfl, .addPosition s marks, ⟨s.positions.size⟩, rfl, ?_, ?_⟩
    · show s.positions.size < (s.positions.push marks).size
      rw [Array.size_push]
      exact Nat.lt_succ_self _
    · simp [Store.position]

/-- A new node has its form and its place. -/
theorem follows_newNode (form : Form) {mark : Mark} {place : Value} (places : s.Places mark place) :
    Follows s (newNode form place) (.ok ()) fun t _ n => t.Holds n form mark := by
  have grows := Store.Grows.addNode s ⟨form, place, []⟩
  refine ⟨_, _, rfl, grows, ?_, place, Store.node_addNode_self s ⟨form, place, []⟩,
    grows.places places⟩
  show s.nodes.size < (s.nodes.push _).size
  rw [Array.size_push]
  exact Nat.lt_succ_self _

/-! ## Terminals -/

theorem follows_literal {c : Constant} {v place : Value} {mark : Mark} (is : c.Is v)
    (places : s.Places mark place) :
    Follows s (literal v place) (.ok (Blueprint.literal mark c)) fun t b n => b.Shows t n := by
  obtain ⟨n, t, runs, grows, holds⟩ := follows_newNode (.literal v) places
  exact ⟨n, t, runs, grows, v, holds, is⟩

/-- A value that is known and then gets a place. -/
theorem follows_literal_at {self : Value} {c : Constant} {v : Value} {mark : Mark} (is : c.Is v)
    (marked : s.Marked self mark) :
    Follows s (do literal v (← settle self)) (.ok (Blueprint.literal mark c))
      fun t b n => b.Shows t n :=
  (follows_settle marked).andThen fun _ _ _ places => follows_literal is places

/-- The number that a numeral spells. -/
theorem follows_numberValue (n : NumberReading) :
    Follows s (numberValue n) (.ok n) fun _ n v => (Constant.number n).Is v := by
  cases n with
  | integer n => exact ⟨_, _, rfl, .addStamp s, _, rfl⟩
  | float x =>
    cases x with
    | number x => exact ⟨_, _, rfl, .addStamp s, _, rfl⟩
    | notANumber => exact ⟨_, _, rfl, .addStamp s, _, rfl⟩

theorem runOn_quotedText {v : Value} {shown : String} (h : s.quotedText v = .ok shown) :
    (ask fun s => s.quotedText v).runOn s = (.ok shown, s) := by
  rw [runOn_ask, h]

theorem runOn_plainText {v : Value} {shown : String} (h : s.plainText v = .ok shown) :
    (ask fun s => s.plainText v).runOn s = (.ok shown, s) := by
  rw [runOn_ask, h]

/-- What a numeral token stands for, or the report that it spells no number. -/
theorem follows_numberOf {self : TokenRef} (text : String) (stamp : Nat) {mark : Mark}
    (marked : s.Marked (.token self) mark) :
    Follows s (numberOf self (.str text stamp)) (orMalformed (NumberReading.of? text))
      fun _ n v => (Constant.number n).Is v := by
  rw [numberOf]
  · refine .after (Work.runOn_get s) (.refl s) ?_
    simp only [Store.text?]
    cases NumberReading.of? text with
    | some n => exact follows_numberValue n
    | none =>
      refine .after (runOn_quotedText rfl) (.refl s) ?_
      exact (follows_settle marked).andThen fun t _ _ _ => follows_malformed _ _
  all_goals
    intros
    contradiction

/-- The text of a token without its quotes. -/
theorem follows_unquoted (text : String) (stamp : Nat) :
    Follows s (unquoted (.str text stamp)) (.ok (unquote text))
      fun _ t v => (Constant.text t).Is v := by
  rw [unquoted]
  refine .after (Work.runOn_get s) (.refl s) ?_
  simp only [Store.text?]
  split
  · next same => exact .pure ⟨stamp, by rw [same]⟩
  · exact ⟨_, _, rfl, .addStamp s, _, rfl⟩

/-- A name becomes a reference, unless it is empty. -/
theorem follows_reference {text : String} {stamp : Nat} {place : Value} {mark : Mark}
    (places : s.Places mark place) :
    Follows s (reference (.str text stamp) place)
      (orMalformed (if text = "" then none else some (Blueprint.reference mark text)))
      fun t b n => b.Shows t n := by
  rw [reference]
  refine .after (Work.runOn_get s) (.refl s) ?_
  simp only [Store.text?]
  split
  · exact .after (runOn_quotedText rfl) (.refl s) (follows_malformed _ _)
  · obtain ⟨n, t, runs, grows, holds⟩ :=
      follows_newNode (.reference (.str text stamp)) places
    exact ⟨n, t, runs, grows, stamp, holds⟩

/-- A literal or name token becomes what the reference says. -/
theorem follows_lowerTerminal (terminal : Terminal) {self : TokenRef} {token : Token}
    {text : String} {stamp : Nat} {mark : Mark} (spells : token.value = .str text stamp)
    (marked : s.Marked (.token self) mark) :
    Follows s (lowerTerminal terminal self token) (orMalformed (terminal.translate text mark))
      fun t b n => b.Shows t n := by
  cases terminal with
  | number =>
    have number := follows_numberOf text stamp marked
    simp only [lowerTerminal, Terminal.translate, spells]
    cases spelt : NumberReading.of? text with
    | none =>
      rw [spelt] at number
      exact number.refuse
    | some n =>
      rw [spelt] at number
      exact number.andThen fun t v grows is => follows_literal_at is (grows.marked marked)
  | string =>
    simp only [lowerTerminal, spells]
    exact (follows_unquoted text stamp).andThen fun t v grows is =>
      follows_literal_at is (grows.marked marked)
  | name =>
    simp only [lowerTerminal, spells]
    exact (follows_settle marked).andThen fun t place _ places => follows_reference places
  | true => exact follows_literal_at rfl marked
  | false => exact follows_literal_at rfl marked
  | null => exact follows_literal_at rfl marked

end Attempt

/-! ## Operands -/

/-- The piece is what a phrase became. -/
def Morsel.Is (s : Store) : Morsel → Piece → Prop
  | .token text, .token _ cell =>
    (∃ stamp, cell.value = .str text stamp) ∧ ∃ kind, s.text? cell.kind = some kind
  | .node b, .value v => ∃ n, v = .node n ∧ b.Shows s n
  | .other, .value v => v.isNode = false ∧ v.isDiscard = false
  | .dropped, .value v => v.isDiscard = true
  | _, _ => False

/-- The pieces are what phrases became, one for each. -/
abbrev Morsel.AreAll (s : Store) : List Morsel → List Piece → Prop :=
  List.Forall₂ (Morsel.Is s)

theorem Morsel.Is.grow {s t : Store} (h : s.Grows t) {m : Morsel} {piece : Piece}
    (is : m.Is s piece) : m.Is t piece := by
  cases m with
  | token text =>
    cases piece with
    | token self cell =>
      obtain ⟨value, kind, named⟩ := is
      exact ⟨value, kind, (h.text? _).trans named⟩
    | value v => cases is
  | node b =>
    cases piece with
    | token self cell => cases is
    | value v =>
      obtain ⟨n, same, shows⟩ := is
      exact ⟨n, same, shows.grow h⟩
  | other | dropped => cases piece <;> exact is

/-- What says that it is to be dropped is no node. -/
theorem Value.isNode_of_isDiscard {v : Value} (h : v.isDiscard = true) : v.isNode = false := by
  cases v with
  | node n => cases h
  | _ => rfl

/-- Only an expression becomes a node. -/
theorem Morsel.Is.isNode_eq_false {s : Store} {m : Morsel} {v : Value} (is : m.Is s (.value v))
    (other : ∀ b, m ≠ .node b) : v.isNode = false := by
  cases m with
  | token text => cases is
  | node b => exact absurd rfl (other b)
  | other => exact is.1
  | dropped => exact Value.isNode_of_isDiscard is

theorem Morsel.AreAll.grow {s t : Store} (h : s.Grows t) {ms : List Morsel} {pieces : List Piece}
    (are : Morsel.AreAll s ms pieces) : Morsel.AreAll t ms pieces :=
  are.imp fun _ _ is => is.grow h

/-- What is dropped of the pieces is what is dropped of the morsels. -/
theorem Morsel.Is.before {s : Store} {m : Morsel} {piece : Piece} {ms : List Morsel}
    {pieces : List Piece} (is : m.Is s piece) (are : Morsel.AreAll s ms pieces) :
    Morsel.AreAll s (m.before ms) (if piece.isDiscard then pieces else piece :: pieces) := by
  cases piece with
  | token self cell =>
    cases m with
    | token text => exact .cons is are
    | _ => cases is
  | value v =>
    cases m with
    | token text => cases is
    | node b =>
      obtain ⟨n, rfl, shows⟩ := is
      exact .cons ⟨n, rfl, shows⟩ are
    | other =>
      rw [Piece.isDiscard, Piece.toValue, if_neg (Bool.eq_false_iff.1 is.2)]
      exact .cons is are
    | dropped =>
      have discard : v.isDiscard = true := is
      rw [Piece.isDiscard, Piece.toValue, if_pos discard]
      exact are

namespace Attempt

variable {s t : Store}

theorem runOn_isPunctuation (rule : Rule) {token : Token} {text : String} {stamp : Nat}
    (spells : token.value = .str text stamp) :
    (isPunctuation rule token).runOn s = (.ok (rule.punctuation.contains text), s) := by
  rw [isPunctuation, spells]
  rfl

/-- The operands of a rule, or the report that something else stands among them. -/
theorem follows_operandsOf (rule : Rule) (place : Value) {ms : List Morsel} {pieces : List Piece}
    (are : Morsel.AreAll s ms pieces) :
    Follows s (operandsOf rule place pieces) (orMalformed (rule.operands ms))
      Blueprint.ShowAll := by
  induction are with
  | nil => exact .pure trivial
  | @cons m piece ms pieces is _ ih =>
    have refused {v : Value} (noNode : v.isNode = false) :
        Follows s (operandsOf rule place (.value v :: pieces)) (.error .malformed)
          Blueprint.ShowAll := by
      rw [operandsOf]
      simp only [noNode, Bool.false_eq_true, if_false]
      exact .after (Work.runOn_map _ _ _) (.refl s) (follows_malformed _ _)
    cases m with
    | token text =>
      cases piece with
      | value v => cases is
      | token self cell =>
        obtain ⟨⟨stamp, spells⟩, kind, named⟩ := is
        rw [operandsOf, Rule.operands]
        refine .after (runOn_isPunctuation rule spells) (.refl s) ?_
        split
        · exact ih
        · have shown : s.quotedText cell.value = .ok (Text.quote text) := by
            rw [spells]
            rfl
          refine .after (runOn_plainText (Store.plainText_of_text named)) (.refl s) ?_
          refine .after (runOn_quotedText shown) (.refl s) ?_
          exact (follows_settle (s.marked_token self)).andThen fun _ _ _ _ => follows_malformed _ _
    | node b =>
      cases piece with
      | token self cell => cases is
      | value v =>
        obtain ⟨n, rfl, shows⟩ := is
        rw [operandsOf, Rule.operands]
        have rest := ih
        cases operands : rule.operands ms with
        | none =>
          rw [operands] at rest
          exact rest.refuse
        | some bs =>
          rw [operands] at rest
          refine rest.andThen fun t vs grows all => .pure ⟨⟨n, rfl, shows.grow grows⟩, all⟩
    | other | dropped =>
      cases piece with
      | token self cell => cases is
      | value v => exact refused (is.isNode_eq_false fun b same => by cases same)

/-! ## Rules -/

/-- An operator over two nodes. -/
theorem follows_fallback {op : Operator} {a b : Blueprint} {l r : NodeRef} {place : Value}
    {mark : Mark} (left : a.Shows s l) (right : b.Shows s r) (places : s.Places mark place) :
    Follows s (fallback op (.node l) (.node r) place) (.ok (Blueprint.fallback mark op a b))
      fun t b n => b.Shows t n := by
  obtain ⟨n, t, runs, grows, holds⟩ :=
    follows_newNode (.fallback op (.node l) (.node r)) places
  exact ⟨n, t, runs, grows, l, r, holds, left.grow grows, right.grow grows⟩

/-- Operands folded onto the last one. -/
theorem follows_foldOnto {op : Operator} {mark : Mark} {place last : Value}
    (places : s.Places mark place) {b : Blueprint} {bs : List Blueprint} {v : Value}
    {vs : List Value} (all : Blueprint.ShowAll s (b :: bs) (v :: vs))
    (final : (v :: vs).getLast? = some last) :
    Follows s (foldOnto (fun lhs rhs => fallback op lhs rhs place) last (v :: vs).dropLast)
      (.ok (Blueprint.fold mark op b bs)) Blueprint.IsAt := by
  induction bs generalizing b v vs with
  | nil =>
    cases vs with
    | nil =>
      cases final
      exact .pure all.1
    | cons w more => exact all.2.elim
  | cons b' bs ih =>
    cases vs with
    | nil => exact all.2.elim
    | cons w more =>
      obtain ⟨⟨l, rfl, left⟩, rest⟩ := all
      rw [List.dropLast_cons_cons, foldOnto]
      refine (ih rest (by rwa [List.getLast?_cons_cons] at final)).andThen ?_
      rintro t _ grows ⟨r, rfl, right⟩
      refine (follows_fallback (left.grow grows) right (grows.places places)).andThen ?_
      exact fun u n _ shows => .pure ⟨n, rfl, shows⟩

/-- The chain of operands, or the report that there are too few. -/
theorem follows_chain (op : Operator) {mark : Mark} {place : Value} (places : s.Places mark place)
    {bs : List Blueprint} {vs : List Value} (all : Blueprint.ShowAll s bs vs) :
    Follows s (chain op vs place) (orMalformed ((Rule.chain op).join mark bs)) Blueprint.IsAt := by
  rcases bs with - | ⟨b, - | ⟨b', bs⟩⟩
  · obtain rfl := all.eq_nil
    exact follows_malformed _ _
  · obtain ⟨n, more, rfl, -, rest⟩ := all.exists_cons
    obtain rfl := rest.eq_nil
    exact follows_malformed _ _
  · obtain ⟨n, more, rfl, -, rest⟩ := all.exists_cons
    obtain ⟨n', more', rfl, -⟩ := rest.exists_cons
    obtain ⟨last, final⟩ : ∃ last, (Value.node n :: .node n' :: more').getLast? = some last :=
      ⟨_, List.getLast?_eq_some_getLast (List.cons_ne_nil _ _)⟩
    have enough : ¬(Value.node n :: .node n' :: more').length < 2 := by simp
    rw [chain, foldRight, final]
    simp only [enough, if_false]
    refine .after (runOn_requireOperands all.isNode _ _ s) (.refl s) ?_
    exact follows_foldOnto places all final

/-- A call of a node with nodes. -/
theorem follows_call {b : Blueprint} {bs : List Blueprint} {c : NodeRef} {vs : List Value}
    {mark : Mark} {place : Value} (callee : b.Shows s c) (args : Blueprint.ShowAll s bs vs)
    (places : s.Places mark place) :
    Follows s (do return .node (← call (.node c) (← tuple vs) place) : Attempt Value)
      (.ok (Blueprint.call mark b bs)) Blueprint.IsAt := by
  have grown := Store.Grows.addStamp s
  refine .after (x := tuple vs) rfl grown ?_
  obtain ⟨n, t, runs, grows, holds⟩ :=
    follows_newNode (.call (.node c) (.tuple vs s.nextStamp)) (grown.places places)
  have nodes : ∀ v ∈ Value.node c :: vs, v.isNode = true :=
    List.forall_mem_cons.2 ⟨rfl, args.isNode⟩
  have made : (call (.node c) (.tuple vs s.nextStamp) place).runOn s.addStamp.2 = (.ok n, t) :=
    (Work.runOn_bind_ok (runOn_requireNodes nodes .call place s.addStamp.2) _).trans runs
  exact .after made grows (.pure ⟨n, rfl, c, vs, s.nextStamp, holds,
    callee.grow (grown.trans grows), args.grow (grown.trans grows)⟩)

/-- A choice between nodes. -/
theorem follows_ternary {a b b' : Blueprint} {c t e : NodeRef} {mark : Mark} {place : Value}
    (condition : a.Shows s c) (thenBranch : b.Shows s t) (elseBranch : b'.Shows s e)
    (places : s.Places mark place) :
    Follows s (do return .node (← ternary (.node c) (.node t) (.node e) place) : Attempt Value)
      (.ok (Blueprint.ternary mark a b b')) Blueprint.IsAt := by
  obtain ⟨n, u, runs, grows, holds⟩ :=
    follows_newNode (.ternary (.node c) (.node t) (.node e)) places
  have made : (ternary (.node c) (.node t) (.node e) place).runOn s = (.ok n, u) := runs
  exact .after made grows (.pure ⟨n, rfl, c, t, e, holds, condition.grow grows,
    thenBranch.grow grows, elseBranch.grow grows⟩)

/-- A node as a value. -/
theorem Follows.toValue {x : Attempt NodeRef} {m : Except FaultKind Blueprint}
    (h : Follows s x m fun t b n => b.Shows t n) :
    Follows s (Value.node <$> x) m Blueprint.IsAt := by
  cases m with
  | ok b =>
    obtain ⟨n, t, runs, grows, shows⟩ := h
    exact ⟨.node n, t, by rw [Work.runOn_map, runs]; rfl, grows, n, rfl, shows⟩
  | error k =>
    obtain ⟨e, t, runs, grows, there, kind⟩ := h
    exact ⟨e, t, by rw [Work.runOn_map, runs]; rfl, grows, there, kind⟩

/-- The only child of a rule, if it is a node of the kind. -/
theorem follows_onlyChild? (kind : NodeKind) {ms : List Morsel} {pieces : List Piece}
    (are : Morsel.AreAll s ms pieces) :
    Follows s (onlyChild? kind pieces) (.ok (Rule.only kind ms)) fun t b? v? =>
      match b? with
      | none => v? = none
      | some b => ∃ v, v? = some v ∧ b.IsAt t v := by
  match are with
  | .nil => exact .pure rfl
  | .cons (a := m) (b := piece) is (.cons _ _) =>
    cases m <;> cases piece <;> exact .pure rfl
  | .cons (a := m) (b := piece) is .nil =>
    cases m with
    | token text =>
      cases piece with
      | token self cell => exact .pure rfl
      | value v => cases is
    | other | dropped =>
      cases piece with
      | token self cell => cases is
      | value v =>
        have noNode := is.isNode_eq_false nofun
        have formless : s.formOf? v = none := by
          cases v with
          | node n => cases noNode
          | _ => rfl
        rw [onlyChild?]
        refine .after (Work.runOn_get s) (.refl s) (.pure ?_)
        rw [formless]
        rfl
    | node b =>
      cases piece with
      | token self cell => cases is
      | value v =>
        obtain ⟨n, rfl, shows⟩ := is
        rw [onlyChild?, Rule.only]
        refine .after (Work.runOn_get s) (.refl s) (.pure ?_)
        simp only [Store.formOf?, Option.any_some, shows.kind, decide_eq_true_eq]
        by_cases same : b.kind = kind
        · rw [if_pos same, if_pos same]
          exact ⟨_, rfl, n, rfl, shows⟩
        · rw [if_neg same, if_neg same]

/-- What the only child of a rule became is what the rule becomes. -/
theorem follows_single (kind : NodeKind) (message : String) {extent : Value} {mark : Mark}
    (marked : s.Marked extent mark) {ms : List Morsel} {pieces : List Piece}
    (are : Morsel.AreAll s ms pieces) :
    Follows s (do
      match ← onlyChild? kind pieces with
      | some v => return v
      | none => malformed (← settle extent) message : Attempt Value)
      (orMalformed (Rule.only kind ms)) Blueprint.IsAt := by
  have only := follows_onlyChild? kind are
  cases found : Rule.only kind ms with
  | none =>
    rw [found] at only
    refine only.andThen fun t v? grows none => ?_
    cases none
    exact (follows_settle (grows.marked marked)).andThen fun _ _ _ _ => follows_malformed _ _
  | some b =>
    rw [found] at only
    refine only.andThen fun t v? grows some => ?_
    obtain ⟨v, rfl, shows⟩ := some
    exact .pure shows

/-- A rule of operands becomes what they are joined to. -/
theorem follows_gathered (r : Rule) {f : Value → List Value → Attempt Value} {extent : Value}
    {mark : Mark} (marked : s.Marked extent mark) {ms : List Morsel} {pieces : List Piece}
    (are : Morsel.AreAll s ms pieces)
    (join : ∀ t place bs vs, t.Places mark place → Blueprint.ShowAll t bs vs →
      Follows t (f place vs) (orMalformed (r.join mark bs)) Blueprint.IsAt) :
    Follows s (do
      let place ← settle extent
      f place (← operandsOf r place pieces) : Attempt Value)
      (orMalformed ((r.operands ms).bind (r.join mark))) Blueprint.IsAt := by
  refine (follows_settle marked).andThen fun t place grows places => ?_
  have operands := follows_operandsOf r place (are.grow grows)
  cases found : r.operands ms with
  | none =>
    rw [found] at operands
    exact operands.refuse
  | some bs =>
    rw [found] at operands
    exact operands.andThen fun u vs grows' all => join u place bs vs (grows'.places places) all

/-- A rule whose parts became what they should becomes what it should. -/
theorem follows_lowerRule (rule : Rule) {extent : Value} {mark : Mark}
    (marked : s.Marked extent mark) {ms : List Morsel} {pieces : List Piece}
    (are : Morsel.AreAll s ms pieces) :
    Follows s (lowerRule rule pieces extent) (orMalformed (rule.translate mark ms))
      Blueprint.IsAt := by
  cases rule with
  | literal => exact follows_single _ _ marked are
  | var => exact follows_single _ _ marked are
  | group =>
    refine follows_gathered .group marked are fun t place bs vs places all => ?_
    rcases bs with - | ⟨b, - | ⟨b', bs⟩⟩
    · obtain rfl := all.eq_nil
      exact follows_malformed _ _
    · obtain ⟨n, more, rfl, shows, rest⟩ := all.exists_cons
      obtain rfl := rest.eq_nil
      exact .pure ⟨n, rfl, shows⟩
    · obtain ⟨n, more, rfl, -, rest⟩ := all.exists_cons
      obtain ⟨n', more', rfl, -⟩ := rest.exists_cons
      exact follows_malformed _ _
  | call =>
    refine follows_gathered .call marked are fun t place bs vs places all => ?_
    cases bs with
    | nil =>
      obtain rfl := all.eq_nil
      exact follows_malformed _ _
    | cons b bs =>
      obtain ⟨n, more, rfl, shows, rest⟩ := all.exists_cons
      exact follows_call shows rest places
  | chain op =>
    exact follows_gathered (.chain op) marked are fun t place bs vs places all =>
      follows_chain op places all
  | ternary =>
    refine follows_gathered .ternary marked are fun t place bs vs places all => ?_
    rcases bs with - | ⟨c, - | ⟨l, - | ⟨r, bs⟩⟩⟩
    · obtain rfl := all.eq_nil
      exact follows_malformed _ _
    · obtain ⟨c', more, rfl, -, rest⟩ := all.exists_cons
      obtain rfl := rest.eq_nil
      exact follows_malformed _ _
    · obtain ⟨c', more, rfl, -, rest⟩ := all.exists_cons
      obtain ⟨l', more', rfl, -, rest'⟩ := rest.exists_cons
      obtain rfl := rest'.eq_nil
      exact follows_malformed _ _
    · obtain ⟨c', more, rfl, first, rest⟩ := all.exists_cons
      obtain ⟨l', more', rfl, second, rest'⟩ := rest.exists_cons
      obtain ⟨r', more'', rfl, third, rest''⟩ := rest'.exists_cons
      cases bs with
      | nil =>
        obtain rfl := rest''.eq_nil
        exact follows_ternary first second third places
      | cons b bs =>
        obtain ⟨n, more, rfl, -⟩ := rest''.exists_cons
        exact follows_malformed _ _

/-! ## Visits -/

theorem runOn_tryCatch {α : Type} (x : Attempt α) (f : FaultRef → Attempt α) (s : Store) :
    (tryCatch x f).runOn s =
      match x.runOn s with
      | (.ok a, t) => (.ok a, t)
      | (.error e, t) => (f e).runOn t := by
  show ((ExceptT.tryCatch x f).run.run s) = _
  rcases runs : x.runOn s with ⟨e | a, t⟩ <;>
  · simp only [Work.runOn, ExceptT.run, StateT.run] at runs
    simp only [ExceptT.tryCatch, ExceptT.run, ExceptT.mk, StateT.run]
    show (StateT.bind x _ s) = _
    simp only [StateT.bind, runs]
    rfl

section Visits

variable {α β : Type} {x : Attempt α} {R : Store → β → α → Prop}

/-- What handles a fault goes on from where the fault was raised. -/
theorem Follows.handle {e : FaultRef} {f : FaultRef → Attempt α} {m : Except FaultKind β}
    (runs : x.runOn s = (.error e, t)) (grows : s.Grows t) (h : Follows t (f e) m R) :
    Follows s (tryCatch x f) m R := by
  have caught : (tryCatch x f).runOn s = (f e).runOn t := by
    rw [runOn_tryCatch, runs]
  cases m with
  | ok b =>
    obtain ⟨a, u, rest, grows', holds⟩ := h
    exact ⟨a, u, caught.trans rest, grows.trans grows', holds⟩
  | error k =>
    obtain ⟨e', u, rest, grows', there, kind⟩ := h
    exact ⟨e', u, caught.trans rest, grows.trans grows', there, kind⟩

/-- A visit that ends well or with the report of a broken tree is as if there was none. -/
theorem Follows.visit {m : Except FaultKind β} (h : Follows s x m R)
    (tame : ∀ k, m = .error k → k = .malformed) (name subject : Value) :
    Follows s (visit name subject x) m R := by
  cases m with
  | ok b =>
    obtain ⟨a, t, runs, grows, holds⟩ := h
    exact ⟨a, t, by rw [Attempt.visit, runOn_tryCatch, runs], grows, holds⟩
  | error k =>
    cases tame k rfl
    obtain ⟨e, t, runs, grows, there, kind⟩ := h
    refine .handle runs grows (.after (Work.runOn_get t) (.refl t) ?_)
    rw [if_pos kind]
    exact ⟨e, t, rfl, .refl t, there, kind⟩

/-- Any other fault with a message is reported as the failure of the visit. -/
theorem follows_visit_of_message (kind : FaultKind) {message label : String} {name : Value}
    (runs : x.runOn s = (.error ⟨s.faults.size⟩,
      (s.addStamp.2.addStamp.2.addFault (faultAt s kind .null message)).2))
    (other : kind ≠ .malformed) (plain : kind ≠ .missingKey) (named : s.text? name = some label)
    (subject : Value) : Follows s (visit name subject x) (.error .visit) R := by
  have grows := Store.Grows.faultAt s kind .null message
  have made := Store.fault_addFault_self s.addStamp.2.addStamp.2 (faultAt s kind .null message)
  refine .handle runs grows (.after (Work.runOn_get _) (.refl _) ?_)
  generalize (s.addStamp.2.addStamp.2.addFault (faultAt s kind .null message)).2 = t at grows made
  have others : ¬(t.fault ⟨s.faults.size⟩).kind = .malformed := by
    intro same
    rw [show t.fault ⟨s.faults.size⟩ = _ from made] at same
    exact other same
  rw [if_neg others]
  have shown := Store.plainText_of_text ((grows.text? name).trans named)
  refine .after (runOn_plainText shown) (.refl t) ?_
  refine .after (runOn_plainText (Store.plainText_of_message plain made)) (.refl t) ?_
  refine .after (x := text _) rfl (.addStamp t) ?_
  refine .after (x := tuple _) rfl (.addStamp _) ?_
  refine .after (x := newFault _ _ _ _) rfl (.addFault _ _) ?_
  refine ⟨_, _, rfl, .refl _, ?_, ?_⟩
  · show t.faults.size < (t.faults.push _).size
    rw [Array.size_push]
    exact Nat.lt_succ_self _
  · exact congrArg Fault.kind (Store.fault_addFault_self t.addStamp.2.addStamp.2 _)

/-- A visit that ends with a misuse fails. -/
theorem follows_visit_misuse (m : Misuse) {label : String} {name : Value}
    (named : s.text? name = some label) (subject : Value) :
    Follows s (visit name subject (misuse m : Attempt α)) (.error .visit) R := by
  exact follows_visit_of_message m.kind (runOn_misuse m s) m.kind_ne.1 m.kind_ne.2 named subject

/-- A recursion that runs out is reported as the interpreter reports it. -/
theorem follows_exhausted {label : String} {name : Value} (named : s.text? name = some label)
    (subject : Value) :
    Follows s (exhausted name subject : Attempt α) (.error s.interpreter.exhaustion) R := by
  refine .after (x := interpreter) rfl (.refl s) ?_
  rw [Interpreter.exhaustion]
  split
  · exact follows_visit_misuse .tooDeep named subject
  · exact follows_misuse .tooDeep

end Visits

end Attempt

/-! ## The walk -/

namespace Lowering

variable {s : Store} {α α' β β' : Type}

/-- Lowering ends as expected, and in the expected mode. -/
def Follows (s : Store) (mode : Mode) (x : Lowering α) (expected : Except FaultKind (β × Mode))
    (R : Store → β → α → Prop) : Prop :=
  Attempt.Follows s (x.run mode) expected fun t b a => b.2 = a.2 ∧ R t b.1 a.1

namespace Follows

variable {mode : Mode} {x : Lowering α} {f : α → Lowering α'} {R : Store → β → α → Prop}
  {R' : Store → β' → α' → Prop}

theorem pure {a : α} {b : β} (h : R s b a) : Follows s mode (pure a) (.ok (b, mode)) R :=
  Attempt.Follows.pure ⟨rfl, h⟩

theorem bind {m : Except FaultKind (β × Mode)} {g : β × Mode → Except FaultKind (β' × Mode)}
    (hx : Follows s mode x m R)
    (hf : ∀ t b mode' a, s.Grows t → R t b a → Follows t mode' (f a) (g (b, mode')) R') :
    Follows s mode (x >>= f) (m >>= g) R' := by
  refine Attempt.Follows.bind hx ?_
  rintro t ⟨b, mode'⟩ ⟨a, mode''⟩ grows ⟨same, holds⟩
  cases same
  exact hf t b _ a grows holds

/-- Nothing comes after a fault. -/
theorem stop {k : FaultKind} (hx : Follows s mode x (.error k) R) :
    Follows s mode (x >>= f) (.error k) R' :=
  Attempt.Follows.refuse hx

/-- An attempt leaves the mode alone. -/
theorem lift {x : Attempt α} {m : Except FaultKind β} (h : Attempt.Follows s x m R) :
    Follows s mode (liftM x) (m.map fun b => (b, mode)) R := by
  cases m with
  | ok b => exact h.andThen fun t a grows holds => .pure ⟨rfl, holds⟩
  | error k => exact h.refuse

/-- Work that asks for the mode. -/
theorem get {f : Mode → Lowering α} {m : Except FaultKind (β × Mode)}
    (h : Follows s mode (f mode) m R) : Follows s mode (MonadState.get >>= f) m R :=
  h

/-- Nothing comes after a fault. -/
theorem refuse {k : FaultKind} {x : Attempt α} (h : Attempt.Follows s x (.error k) R) :
    Follows s mode (liftM x >>= f) (.error k) R' := by
  obtain ⟨e, t, runs, grows, there, kind⟩ := h
  exact ⟨e, t, Work.runOn_bind_error (Work.runOn_bind_error runs _) _, grows, there, kind⟩

/-- What an attempt made before stays made. -/
theorem after {t : Store} {x : Attempt α} {a : α} {m : Except FaultKind (β' × Mode)}
    (first : x.runOn s = (.ok a, t)) (grows : s.Grows t) (h : Follows t mode (f a) m R') :
    Follows s mode (liftM x >>= f) m R' :=
  Attempt.Follows.after (x := x >>= fun a => Pure.pure (a, mode)) (a := (a, mode))
    (Work.runOn_bind_ok first _) grows h

end Follows

/-- Nothing that an operation of the base yields is dropped. -/
theorem is_other (typeName : KeptType) (stamp : Nat) :
    Morsel.other.Is s (.value (.curio typeName.val stamp)) :=
  ⟨rfl, decide_eq_false typeName.property⟩

/-- An operation of the base does with a rule or token what its effect is. -/
theorem follows_operate (effect : Effect) {name subject : Value} {given : Piece} {m : Morsel}
    {label : String} (named : s.text? name = some label) (is : m.Is s given) (mode : Mode) :
    Follows s mode (operate effect name subject given) (effect.walk m mode) Morsel.Is := by
  cases effect with
  | fails misuse => exact .lift (R := Morsel.Is) (Attempt.follows_visit_misuse misuse named subject)
  | handsBack => exact .pure is
  | setsVisits visits? => exact ⟨_, s, rfl, .refl s, rfl, rfl, rfl⟩
  | yields typeName => exact ⟨_, _, rfl, .addStamp s, rfl, is_other typeName _⟩
  | wraps wrapper typeName => exact ⟨_, _, rfl, .addStamp s, rfl, is_other typeName _⟩

theorem runOn_nameOf {v : Value} {name : String} (named : s.text? v = some name) :
    (nameOf v).runOn s = (.ok name, s) := by
  rw [nameOf, Work.runOn_bind_ok (Work.runOn_get s), named]
  rfl

/-- An expression that was lowered is a piece. -/
theorem Follows.value {mode : Mode} {x : Attempt Value} {b? : Option Blueprint}
    (h : Attempt.Follows s x (orMalformed b?) Blueprint.IsAt) :
    Follows s mode (do return .value (← x)) (Morsel.ofBlueprint? mode b?) Morsel.Is := by
  cases b? with
  | none => exact .refuse h
  | some b =>
    obtain ⟨v, t, runs, grows, at_⟩ := h
    exact .after runs grows (.pure at_)

/-- A visit that a misuse makes fail. -/
theorem Follows.fails {mode : Mode} (misuse : Misuse) {name : Value} {label : String}
    (named : s.text? name = some label) (subject : Value) :
    Follows s mode (do return .value (← Attempt.visit name subject (Attempt.misuse misuse)))
      (.error .visit) Morsel.Is :=
  .refuse (R := fun _ (_ : Blueprint) _ => True) (Attempt.follows_visit_misuse misuse named subject)

/-- A terminal whose tokens all stand for one value has that value in the walk, too. -/
theorem constant?_eq (t : Terminal) :
    (t.constant? = none ∧ t.fixed? = none) ∨
      ∃ v c, t.constant? = some v ∧ t.fixed? = some c ∧ c.Is v := by
  cases t with
  | true => exact .inr ⟨_, _, rfl, rfl, rfl⟩
  | false => exact .inr ⟨_, _, rfl, rfl, rfl⟩
  | null => exact .inr ⟨_, _, rfl, rfl, rfl⟩
  | _ => exact .inl ⟨rfl, rfl⟩

/-- A rule becomes what the walk says, if its parts did. -/
theorem follows_rule (self : TreeRef) {label extent : Value} {name : String} {mark : Mark}
    {ms : List Morsel} {pieces : List Piece} (named : s.text? label = some name)
    (marked : s.Marked extent mark) (are : Morsel.AreAll s ms pieces) (mode : Mode) :
    Follows s mode (rule self label pieces extent)
      (Phrase.walkRule s.interpreter name mark ms mode) Morsel.Is := by
  refine .after (runOn_nameOf named) (.refl s) (.after (x := Attempt.interpreter) rfl (.refl s) ?_)
  rw [Phrase.walkRule]
  cases Meaning.of s.interpreter name with
  | rule r => exact .value ((Attempt.follows_lowerRule r marked are).visit orMalformed_eq_error _ _)
  | terminal t =>
    refine .get ?_
    rcases mode.wrapper? with _ | wrapper
    · obtain ⟨constant, fixed⟩ | ⟨v, c, constant, fixed, is⟩ := constant?_eq t
      · simp only [constant, fixed]
        exact .fails _ named _
      · simp only [constant, fixed]
        obtain ⟨n, t, runs, grows, shows⟩ :=
          Attempt.follows_literal is (show s.Places none .null from rfl)
        exact .after runs grows (.pure ⟨n, rfl, shows⟩)
    · exact .fails _ named _
  | operation op =>
    refine .after (x := Attempt.list _) rfl (.addStamp s) (.get ?_)
    rw [← are.length_eq]
    have other : Morsel.other.Is s.addStamp.2
        (.value (.list (pieces.map Piece.toValue) s.nextStamp)) := ⟨rfl, rfl⟩
    exact follows_operate _ (((Store.Grows.addStamp s).text? label).trans named) other mode
  | unknown =>
    obtain ⟨place, t, runs, grows, -⟩ := Attempt.follows_settle marked
    exact .after runs grows (.lift (R := Morsel.Is) (Attempt.follows_malformed _ _))

/-- A token becomes what the walk says. -/
theorem follows_token {self : TokenRef} {kind text : String} {stamp : Nat}
    (named : s.text? (s.token self).kind = some kind) (letters : (s.token self).text = text)
    (spells : (s.token self).value = .str text stamp) (mode : Mode) :
    Follows s mode (token self (s.token self))
      (Phrase.walkToken s.interpreter kind text (s.mark? (.token self)) mode) Morsel.Is := by
  have stays : (Morsel.token text).Is s (.token self (s.token self)) :=
    ⟨⟨stamp, spells⟩, kind, named⟩
  rw [token, Phrase.walkToken]
  refine .get ?_
  cases mode.visitsTokens with
  | false => exact .pure stays
  | true =>
    simp only [Bool.not_true, Bool.false_eq_true, if_false, if_true]
    refine .after (runOn_nameOf named) (.refl s)
      (.after (x := Attempt.interpreter) rfl (.refl s) ?_)
    cases Meaning.of s.interpreter kind with
    | rule r =>
      refine .refuse (R := fun _ (_ : Blueprint) _ => True) ?_
      exact Attempt.follows_visit_of_message .badType rfl (by decide) (by decide) named _
    | terminal t =>
      have lowered := Attempt.follows_lowerTerminal t spells (s.marked_token self)
      exact .value (lowered.toValue.visit orMalformed_eq_error _ _)
    | operation op =>
      rw [letters]
      exact .get (follows_operate _ named stays mode)
    | unknown => exact .pure stays

theorem parsePart_other {v : Value} (h : v.isParsed = false) (depth : Nat) :
    s.parsePart depth v = (.other v, true) := by
  cases v with
  | tree | token | node => cases h
  | _ => cases depth <;> rfl

theorem parsePart_node (n : NodeRef) (depth : Nat) :
    s.parsePart depth (.node n) = (.other (.node n), true) := by
  cases depth <;> rfl

theorem parsePart_tree {r : TreeRef} {vs : List Value}
    (children : s.items? (s.tree r).children = some vs) (depth : Nat) :
    s.parsePart (depth + 1) (.tree r) =
      (.rule r (s.tree r).label (Store.parseParts (s.parsePart depth) vs).1 (s.tree r).extent,
        (Store.parseParts (s.parsePart depth) vs).2) := by
  simp only [Store.parsePart, Store.items, children]

mutual

/-- What was not read as a whole is nested too deep. -/
theorem lt_height_of_parsePart : ∀ {p : Phrase} {v : Value} (depth : Nat), p.Reads s v →
    (s.parsePart depth v).2 = false → depth < p.height
  | .rule _ _ _, _, 0, _, _ => Nat.succ_pos _
  | .rule _ _ _, _, depth + 1, ⟨r, vs, same, _, _, children, below⟩, h => by
    subst same
    rw [parsePart_tree children] at h
    exact Nat.succ_lt_succ (lt_height_of_parseParts depth below h)
  | .token _ _ _, _, 0, _, _ => Nat.succ_pos _
  | .token _ _ _, _, _ + 1, ⟨r, _, same, _⟩, h => by
    subst same
    cases h
  | .node n _, _, depth, ⟨same, _⟩, h => by
    subst same
    rw [parsePart_node] at h
    cases h
  | .other _, _, depth, ⟨_, other⟩, h => by
    rw [parsePart_other other] at h
    cases h

theorem lt_height_of_parseParts : ∀ {ps : List Phrase} {vs : List Value} (depth : Nat),
    Phrase.ReadsAll s ps vs → (Store.parseParts (s.parsePart depth) vs).2 = false →
    depth < Phrase.heightOfAll ps
  | [], [], _, _, h => by cases h
  | p :: ps, v :: vs, depth, ⟨first, rest⟩, h => by
    rw [Store.parseParts] at h
    rw [Phrase.heightOfAll]
    cases whole : (s.parsePart depth v).2 with
    | false =>
      exact Nat.lt_of_lt_of_le (lt_height_of_parsePart depth first whole) (Nat.le_max_left ..)
    | true =>
      simp only [whole, if_true] at h
      exact Nat.lt_of_lt_of_le (lt_height_of_parseParts depth rest h) (Nat.le_max_right ..)

end

mutual

/-- A part of a parse tree becomes what the walk says. It is read out of the store as it was before
lowering began. -/
theorem follows_part : ∀ {p : Phrase} {v : Value} {t : Store} (depth : Nat) (mode : Mode),
    s.Grows t → p.Reads s v →
    Follows t mode (part (s.parsePart depth v).1) (p.walk s.interpreter depth mode) Morsel.Is
  | .rule label mark ps, _, t, 0, mode, grows, ⟨r, vs, same, named, _⟩ => by
    subst same
    have exhausted := Attempt.follows_exhausted (α := Piece) (R := Morsel.Is)
      ((grows.text? _).trans named) (.tree r)
    rw [grows.interpreter] at exhausted
    exact .lift exhausted
  | .rule label mark ps, _, t, depth + 1, mode, grows,
      ⟨r, vs, same, named, marked, children, below⟩ => by
    subst same
    rw [parsePart_tree children, part, Phrase.walk]
    refine .bind (follows_parts depth mode grows below) ?_
    intro u ms mode' pieces grows' are
    have grown := grows.trans grows'
    have ruled := follows_rule r ((grown.text? _).trans named) (grown.marked marked) are mode'
    rwa [grown.interpreter] at ruled
  | .token kind text mark, _, t, 0, mode, grows, ⟨r, stamp, same, named, _⟩ => by
    subst same
    have exhausted := Attempt.follows_exhausted (α := Piece) (R := Morsel.Is)
      ((grows.text? _).trans named) (.token r)
    rw [grows.interpreter] at exhausted
    exact .lift exhausted
  | .token kind text mark, _, t, _ + 1, mode, grows,
      ⟨r, stamp, same, named, letters, spells, marks⟩ => by
    subst same marks
    rw [← grows.token r] at named letters spells
    rw [Store.parsePart, part, ← grows.token r, ← grows.mark? rfl, Phrase.walk,
      ← grows.interpreter]
    exact follows_token ((grows.text? _).symm ▸ named) letters spells mode
  | .node n kind, _, t, depth, mode, grows, ⟨same, there, is⟩ => by
    subst same
    rw [parsePart_node, part, Phrase.walk]
    refine .pure ⟨n, rfl, rfl, (grows.le.node there).1, ?_⟩
    rw [Store.form, (grows.le.node there).2]
    exact is
  | .other w, v, t, depth, mode, grows, ⟨same, other⟩ => by
    subst same
    have noNode : v.isNode = false := by
      cases v with
      | node n => cases other
      | _ => rfl
    rw [parsePart_other other, part, Phrase.walk, Morsel.ofValue]
    split
    · next discard => exact .pure discard
    · next kept => exact .pure ⟨noNode, Bool.eq_false_iff.2 kept⟩

theorem follows_parts : ∀ {ps : List Phrase} {vs : List Value} {t : Store} (depth : Nat)
    (mode : Mode), s.Grows t → Phrase.ReadsAll s ps vs →
    Follows t mode (parts (Store.parseParts (s.parsePart depth) vs).1)
      (Phrase.walkAll s.interpreter ps depth mode) Morsel.AreAll
  | [], [], t, _, mode, _, _ => .pure .nil
  | p :: ps, v :: vs, t, depth, mode, grows, ⟨first, rest⟩ => by
    have head := follows_part depth mode grows first
    rw [Store.parseParts, Phrase.walkAll]
    cases whole : (s.parsePart depth v).2 with
    | false =>
      obtain ⟨k, fails⟩ := Phrase.exists_error_of_lt_height s.interpreter p depth mode
        (lt_height_of_parsePart depth first whole)
      rw [fails] at head ⊢
      simp only [whole, Bool.false_eq_true, if_false, parts]
      exact head.stop
    | true =>
      simp only [whole, if_true, parts]
      refine .bind head ?_
      intro u m mode' piece grows' is
      refine .bind (follows_parts depth mode' (grows.trans grows') rest) ?_
      exact fun w ms mode'' pieces grows'' are => .pure ((is.grow grows'').before are)

end

end Lowering

/-! ## Whole trees -/

/-- Nothing was added to a list that is still to be made. -/
def Store.IsOrderly (s : Store) : Prop :=
  ∀ a ∈ s.additions, a.stamp < s.nextStamp

/-- It is so where nothing was added to any list. -/
theorem Store.isOrderly_of_additions {s : Store} (none : s.additions = #[]) : s.IsOrderly := by
  intro a ha
  rw [none] at ha
  exact absurd ha (Array.not_mem_empty a)

theorem Store.addedTo_of_isOrderly {s : Store} (orderly : s.IsOrderly) {stamp : Nat}
    (unmade : s.nextStamp ≤ stamp) : s.addedTo stamp = [] := by
  have none : s.additions.toList.filter (fun a => a.stamp = stamp) = [] := by
    refine List.filter_eq_nil_iff.2 fun a ha same => ?_
    have made := orderly a (Array.mem_toList_iff.1 ha)
    have : a.stamp = stamp := by simpa using same
    omega
  rw [addedTo, none]
  rfl

/-- The store with a new group around a token. -/
def Store.grouped (s : Store) (r : TokenRef) : Store :=
  let extent := s.addExtent [(blankName, .bool true)]
  (extent.2.addStamp.2.addStamp.2.addTree ⟨.str Rule.group.label s.nextStamp,
    .list [.token r] (s.nextStamp + 1), .extent extent.1, []⟩).2

theorem Store.tree_grouped (s : Store) (r : TokenRef) :
    (s.grouped r).tree ⟨s.trees.size⟩ = ⟨.str Rule.group.label s.nextStamp,
      .list [.token r] (s.nextStamp + 1), .extent ⟨s.extents.size⟩, []⟩ := by
  simp [grouped, tree, addTree, addStamp, addExtent]

theorem Store.marked_grouped (s : Store) (r : TokenRef) :
    (s.grouped r).Marked (.extent ⟨s.extents.size⟩) none := by
  have blank : (s.grouped r).extent ⟨s.extents.size⟩ = [(blankName, .bool true)] := by
    simp [grouped, extent, addTree, addStamp, addExtent]
  have told : (s.grouped r).attribute? (.extent ⟨s.extents.size⟩) blankName = some (.bool true) := by
    rw [attribute?, attributes, blank]
    rfl
  exact marked_of_blank rfl told

/-- The token is all there is in the group, since nothing was added to the list beforehand. -/
theorem Store.items?_grouped {s : Store} (orderly : s.IsOrderly) (r : TokenRef) :
    (s.grouped r).items? (.list [.token r] (s.nextStamp + 1)) = some [.token r] := by
  have fresh : (s.grouped r).addedTo (s.nextStamp + 1) = [] :=
    addedTo_of_isOrderly (s := s) orderly (Nat.le_succ _)
  show some ([Value.token r] ++ (s.grouped r).addedTo (s.nextStamp + 1)) = _
  rw [fresh]
  rfl

namespace Attempt

variable {s : Store}

theorem runOn_rooted_token (r : TokenRef) (s : Store) :
    (rooted (.token r)).runOn s = (.ok (.tree ⟨s.trees.size⟩), s.grouped r) := rfl

/-- The root of a tree is the tree, or the group made around a token on its own. It has no bearing on
the types of values. -/
theorem exists_rooted {p : Phrase} {v : Value} (reads : p.Reads s v) (orderly : s.IsOrderly) :
    ∃ root t, (rooted v).runOn s = (.ok root, t) ∧ s.KeepsPlaces t ∧ p.root.Reads t root ∧
      (∀ w, t.typeName w = s.typeName w) ∧ t.faults = s.faults := by
  cases p with
  | token kind text mark =>
    obtain ⟨r, stamp, rfl, named, letters, spells, marks⟩ := reads
    refine ⟨_, _, runOn_rooted_token r s, .of_eq (Store.le_of_eq rfl rfl rfl) rfl rfl,
      ⟨⟨s.trees.size⟩, [.token r], rfl, ?_⟩, fun w => by cases w <;> rfl, rfl⟩
    rw [Store.tree_grouped]
    exact ⟨rfl, s.marked_grouped r, Store.items?_grouped orderly r,
      ⟨r, stamp, rfl, named, letters, spells, marks⟩, trivial⟩
  | rule label mark ps =>
    obtain ⟨r, vs, rfl, reads⟩ := reads
    exact ⟨.tree r, s, rfl, .refl s, ⟨r, vs, rfl, reads⟩, fun _ => rfl, rfl⟩
  | node n kind =>
    obtain ⟨rfl, reads⟩ := reads
    exact ⟨.node n, s, rfl, .refl s, ⟨rfl, reads⟩, fun _ => rfl, rfl⟩
  | other w =>
    obtain ⟨rfl, other⟩ := reads
    refine ⟨v, s, ?_, .refl s, ⟨rfl, other⟩, fun _ => rfl, rfl⟩
    cases v with
    | token r => cases other
    | _ => rfl

/-- A piece as the node that lowering ends with. -/
def finish (piece : Piece) : Attempt Value := do
  let v := if piece.isDiscard then .null else piece.toValue
  if v.isNode then return v
  else malformed .null ("Lowering produced " ++ (← typeName v) ++ ", not an expression node")

/-- Lowering is a walk over the tree as it is read, and then a node or the report that there is
none. -/
theorem runOn_lower {v root : Value} {t : Store} (made : (rooted v).runOn s = (.ok root, t)) :
    (lower v).runOn s =
      (do finish (← (Lowering.part (t.parse root)).run t.interpreter.mode).1 :
        Attempt Value).runOn t := by
  rw [lower, Work.runOn_bind_ok made]
  exact Work.runOn_bind_ok (Work.runOn_get t) _

/-- A node is lowered to itself. -/
theorem runOn_lower_node (n : NodeRef) (s : Store) :
    (lower (.node n)).runOn s = (.ok (.node n), s) := by
  rw [runOn_lower (show (rooted (.node n)).runOn s = (.ok (.node n), s) from rfl), Store.parse,
    Lowering.parsePart_node]
  rfl

/-- What a walk ended with becomes a node, or the report that it is none. -/
theorem follows_finish {m : Morsel} {piece : Piece} (is : m.Is s piece) :
    Follows s (finish piece)
      (match m with
        | .node b => .ok b
        | _ => .error .malformed) Blueprint.IsAt := by
  have refused {piece : Piece} (noNode : piece.toValue.isNode = false) :
      Follows s (finish piece) (.error .malformed) Blueprint.IsAt := by
    have none : (if piece.isDiscard then Value.null else piece.toValue).isNode = false := by
      split
      · rfl
      · exact noNode
    rw [finish, if_neg (Bool.eq_false_iff.1 none)]
    exact .after (Work.runOn_map _ _ _) (.refl s) (follows_malformed _ _)
  cases m with
  | token text =>
    cases piece with
    | token self cell => exact refused rfl
    | value v => cases is
  | node b =>
    cases piece with
    | token self cell => cases is
    | value v =>
      obtain ⟨n, rfl, shows⟩ := is
      exact .pure ⟨n, rfl, shows⟩
  | other | dropped =>
    cases piece with
    | token self cell => cases is
    | value v => exact refused (is.isNode_eq_false nofun)

/-- How lowering a value ends: with a node that is the expression, or with a fault of the kind. What
lasts has lasted. -/
def Lowers (s : Store) (v : Value) : Except FaultKind Blueprint → Prop
  | .ok b => ∃ n t, (lower v).runOn s = (.ok (.node n), t) ∧ s ≤ t ∧ b.Shows t n
  | .error k => ∃ e t, (lower v).runOn s = (.error e, t) ∧ s ≤ t ∧ e.index < t.faults.size ∧
      (t.fault e).kind = k

/-- Once a tree has its root, lowering it ends as the verdict on it says. -/
theorem follows_lower {p : Phrase} {v : Value} (reads : p.Reads s v) (orderly : s.IsOrderly) :
    ∃ (t : Store) (x : Attempt Value), s.KeepsPlaces t ∧ (lower v).runOn s = x.runOn t ∧
      Follows t x (p.verdict s.interpreter) Blueprint.IsAt := by
  obtain ⟨root, t, rooted, keeps, reads, -, -⟩ := exists_rooted reads orderly
  refine ⟨t, _, keeps, runOn_lower rooted, ?_⟩
  rw [← keeps.interpreter]
  refine .bind (Lowering.follows_part t.interpreter.treeDepth t.interpreter.mode (.refl t) reads) ?_
  rintro u ⟨m, mode⟩ ⟨piece, mode'⟩ - ⟨-, is⟩
  cases m <;> exact follows_finish is

/-- Lowering a tree ends as the verdict on it says. -/
theorem lowers_of_reads {p : Phrase} {v : Value} (reads : p.Reads s v) (orderly : s.IsOrderly) :
    Lowers s v (p.verdict s.interpreter) := by
  obtain ⟨t, x, keeps, runs, walked⟩ := follows_lower reads orderly
  cases verdict : p.verdict s.interpreter with
  | ok b =>
    rw [verdict] at walked
    obtain ⟨v', u, ends, grows, n, rfl, shows⟩ := walked
    exact ⟨n, u, runs.trans ends, le_trans keeps.le grows.le, shows⟩
  | error k =>
    rw [verdict] at walked
    obtain ⟨e, u, ends, grows, there, kind⟩ := walked
    exact ⟨e, u, runs.trans ends, le_trans keeps.le grows.le, there, kind⟩

/-- Lowering keeps all places, however it ends. -/
theorem keepsPlaces_runOn_lower {p : Phrase} {v : Value} (reads : p.Reads s v)
    (orderly : s.IsOrderly) : s.KeepsPlaces ((lower v).runOn s).2 := by
  obtain ⟨t, x, keeps, runs, walked⟩ := follows_lower reads orderly
  rw [runs]
  cases verdict : p.verdict s.interpreter with
  | ok b =>
    rw [verdict] at walked
    obtain ⟨v', u, ends, grows, -⟩ := walked
    rw [ends]
    exact keeps.trans grows.toKeepsPlaces
  | error k =>
    rw [verdict] at walked
    obtain ⟨e, u, ends, grows, -⟩ := walked
    rw [ends]
    exact keeps.trans grows.toKeepsPlaces

/-- A tree that lowering ends well with has a verdict that the node shows, and all places are
kept. -/
theorem verdict_of_runOn_lower {p : Phrase} {v w : Value} {t : Store} (reads : p.Reads s v)
    (orderly : s.IsOrderly) (h : (lower v).runOn s = (.ok w, t)) :
    ∃ b n, p.verdict s.interpreter = .ok b ∧ w = .node n ∧ s.KeepsPlaces t ∧ b.Shows t n := by
  obtain ⟨u, x, keeps, runs, walked⟩ := follows_lower reads orderly
  cases verdict : p.verdict s.interpreter with
  | ok b =>
    rw [verdict] at walked
    obtain ⟨v', t', ends, grows, n, rfl, shows⟩ := walked
    rw [runs, ends] at h
    cases h
    exact ⟨b, n, rfl, rfl, keeps.trans grows.toKeepsPlaces, shows⟩
  | error k =>
    rw [verdict] at walked
    obtain ⟨e, t', ends, -⟩ := walked
    rw [runs, ends] at h
    cases h

end Attempt

end Fallback
