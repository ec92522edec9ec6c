import Fallback.Proofs.Construction
import Fallback.Proofs.Lowering

/-!
What chains and lowering put together is well formed.

A chain and the lowering of a parse tree make nodes with the constructors alone, and the nodes that
they are given were made by constructors as well. So what they end with is a built tree:
`Attempt.gives_chain`, `Attempt.gives_lower`. How they may fail does not matter here: what
`Attempt.Gives` says is what an attempt gives if it ends well, and an attempt that only fails gives
anything.

The nodes that stand in a parse tree already are `Parse.nodes`.
-/
namespace Fallback

/-- The value is a built tree. -/
def Value.IsBuilt (s : Store) (v : Value) : Prop :=
  ∃ n, v = .node n ∧ s.IsBuilt n

/-- The value is a built tree if it is a node at all. -/
def Value.IsSound (s : Store) (v : Value) : Prop :=
  ∀ n, v = .node n → s.IsBuilt n

namespace Value

variable {s t : Store} {v : Value}

theorem IsBuilt.mono (le : s ≤ t) (h : v.IsBuilt s) : v.IsBuilt t := by
  obtain ⟨n, same, built⟩ := h
  exact ⟨n, same, built.mono le⟩

theorem IsSound.mono (le : s ≤ t) (h : v.IsSound s) : v.IsSound t :=
  fun n same => (h n same).mono le

theorem IsBuilt.isSound (h : v.IsBuilt s) : v.IsSound s := by
  obtain ⟨n, rfl, built⟩ := h
  rintro m ⟨⟩
  exact built

theorem IsBuilt.knows (h : v.IsBuilt s) : s.Knows v := by
  obtain ⟨n, rfl, built⟩ := h
  exact Store.knows_node built

/-- A sound value that is a node is a built tree. -/
theorem IsSound.isBuilt (h : v.IsSound s) (node : v.isNode = true) : v.IsBuilt s := by
  cases v with
  | node n => exact ⟨n, rfl, h n rfl⟩
  | _ => cases node

end Value

namespace Attempt

variable {α β : Type} {s t : Store}

/-! ## What attempts give -/

/-- If the attempt ends well, what lasts has lasted and the result is as the predicate says. -/
def Gives (s : Store) (x : Attempt α) (P : Store → α → Prop) : Prop :=
  ∀ a t, x.runOn s = (.ok a, t) → s ≤ t ∧ P t a

/-- If the attempt ends well, what lasts has lasted. -/
abbrev Lasts (s : Store) (x : Attempt α) : Prop :=
  Gives s x fun _ _ => True

section Rules

variable {x : Attempt α} {f : α → Attempt β} {P P' : Store → α → Prop} {Q : Store → β → Prop}

theorem gives_pure {a : α} (h : P s a) : Gives s (pure a) P := by
  rintro _ _ ⟨⟩
  exact ⟨le_refl s, h⟩

theorem Gives.bind (hx : Gives s x P) (hf : ∀ t a, s ≤ t → P t a → Gives t (f a) Q) :
    Gives s (x >>= f) Q := by
  intro b u h
  obtain ⟨a, t, first, rest⟩ := Work.runOn_bind_eq_ok.1 h
  obtain ⟨le, holds⟩ := hx a t first
  obtain ⟨le', done⟩ := hf t a le holds b u rest
  exact ⟨le_trans le le', done⟩

theorem Gives.imp (h : Gives s x P) (weaker : ∀ t a, s ≤ t → P t a → P' t a) : Gives s x P' := by
  intro a t ends
  obtain ⟨le, holds⟩ := h a t ends
  exact ⟨le, weaker t a le holds⟩

/-- What only fails gives anything. -/
theorem gives_of_error {e : FaultRef} (h : x.runOn s = (.error e, t)) : Gives s x P := by
  intro a u ends
  rw [h] at ends
  cases ends

theorem gives_throw (e : FaultRef) : Gives s (throw e) P :=
  gives_of_error rfl

theorem gives_fail (kind : FaultKind) (message : String) : Gives s (fail kind message) P :=
  gives_of_error rfl

theorem gives_misuse (m : Misuse) : Gives s (misuse m) P :=
  gives_of_error rfl

theorem gives_malformed (place : Value) (message : String) : Gives s (malformed place message) P :=
  gives_of_error rfl

theorem gives_get {f : Store → Attempt β} (h : Gives s (f s) Q) : Gives s (get >>= f) Q := by
  intro b t ends
  rw [Work.runOn_bind_ok (Work.runOn_get s)] at ends
  exact h b t ends

theorem gives_ask (answer : Store → Except Misuse α) :
    Gives s (ask answer) fun t a => t = s ∧ answer s = .ok a := by
  intro a t ends
  rw [runOn_ask] at ends
  cases answered : answer s with
  | ok b =>
    rw [answered] at ends
    cases ends
    exact ⟨le_refl s, rfl, rfl⟩
  | error m =>
    rw [answered] at ends
    cases ends

theorem lasts_make {add : Store → α × Store} (h : ∀ s : Store, s ≤ (add s).2) :
    Lasts s (make add) := by
  rintro _ _ ⟨⟩
  exact ⟨h s, trivial⟩

theorem lasts_stamp : Lasts s (make Store.addStamp) :=
  lasts_make fun _ => Store.Change.stamp.le

theorem gives_ite {c : Prop} [Decidable c] {y : Attempt α} (hx : c → Gives s x P)
    (hy : ¬c → Gives s y P) : Gives s (if c then x else y) P := by
  split
  · next h => exact hx h
  · next h => exact hy h

/-- A visit gives what is visited gives. -/
theorem Gives.visit (h : Gives s x P) (name subject : Value) :
    Gives s (visit name subject x) P := by
  intro a t ends
  rw [Attempt.visit, runOn_tryCatch] at ends
  cases runs : x.runOn s with
  | mk result u =>
    rw [runs] at ends
    cases result with
    | ok b => exact h a t (runs.trans ends)
    | error e =>
      have never : Gives u (do
          if ((← get).fault e).kind = .malformed then throw e
          else
            let shown ← ask fun s => s.plainText name
            let reason ← ask fun s => s.plainText (.fault e)
            let message ← text ("Error trying to process rule " ++
              String.singleton Text.quotation ++ shown ++ String.singleton Text.quotation ++
              ":\n\n" ++ reason)
            let extras := [("rule", name), ("obj", subject), ("orig_exc", Value.fault e)]
            throw (← newFault .visit (← tuple [message]) .null extras) : Attempt α)
          fun _ _ => False := by
        refine gives_get (gives_ite (fun _ => gives_throw e) fun _ => ?_)
        refine (gives_ask _).bind fun _ _ _ _ => (gives_ask _).bind fun _ _ _ _ => ?_
        exact gives_of_error rfl
      exact (never a t ends).2.elim

end Rules

/-! ## Chains -/

/-- What passes the check is all nodes. -/
theorem gives_requireOperands (kind : NodeKind) (place : Value) (vs : List Value) :
    Gives s (requireOperands kind place vs) fun t _ => t = s ∧ ∀ v ∈ vs, v.isNode = true := by
  induction vs with
  | nil => exact gives_pure ⟨rfl, List.forall_mem_nil _⟩
  | cons v vs ih =>
    rw [requireOperands]
    refine gives_ite (fun node => ih.imp fun t _ _ rest => ?_) fun _ => ?_
    · exact ⟨rest.1, List.forall_mem_cons.2 ⟨node, rest.2⟩⟩
    · exact gives_of_error rfl

/-- An operator over two built trees. -/
theorem gives_fallback (op : Operator) (place : Value) {v w : Value} (left : v.IsBuilt s)
    (right : w.IsBuilt s) :
    Gives s (fallback op v w place) fun t n => t.IsBuilt n := by
  obtain ⟨l, rfl, left⟩ := left
  obtain ⟨r, rfl, right⟩ := right
  exact fun n t ends => isBuilt_of_fallback left right ends

/-- Every operator of a chain is made over an operand and the chain of those after it. -/
theorem gives_foldOnto (op : Operator) (place : Value) {last : Value} {vs : List Value}
    (final : last.IsBuilt s) (all : ∀ v ∈ vs, v.IsBuilt s) :
    Gives s (foldOnto (fun lhs rhs => fallback op lhs rhs place) last vs) fun t v =>
      v.IsBuilt t := by
  induction vs with
  | nil => exact gives_pure final
  | cons v vs ih =>
    obtain ⟨first, rest⟩ := List.forall_mem_cons.1 all
    refine (ih rest).bind fun t w le right => ?_
    refine (gives_fallback op place (first.mono le) right).bind fun u n _ built => ?_
    exact gives_pure ⟨n, rfl, built⟩

/-- A chain of values that are built trees as far as they are nodes is a built tree. -/
theorem gives_chain (op : Operator) {vs : List Value} (place : Value)
    (sound : ∀ v ∈ vs, v.IsSound s) : Gives s (chain op vs place) fun t v => v.IsBuilt t := by
  rw [chain, foldRight]
  cases final : vs.getLast? with
  | none => exact gives_malformed _ _
  | some last =>
    refine gives_ite (fun _ => gives_malformed _ _) fun _ => ?_
    refine (gives_requireOperands _ place vs).bind fun t _ _ checked => ?_
    obtain ⟨rfl, nodes⟩ := checked
    have built : ∀ v ∈ vs, v.IsBuilt t := fun v hv => (sound v hv).isBuilt (nodes v hv)
    exact gives_foldOnto op place (built last (List.mem_of_getLast? final))
      fun v hv => built v (List.dropLast_subset _ hv)

/-! ## Positions and literals -/

theorem lasts_sizeOf (v : Value) : Lasts s (sizeOf v) := by
  unfold sizeOf
  split
  · exact gives_throw _
  · exact gives_of_error rfl
  · refine gives_ite (fun _ => gives_fail _ _) fun _ => ?_
    exact gives_ite (fun _ => gives_fail _ _) fun _ => gives_pure trivial

theorem lasts_truth (v : Value) : Lasts s (truth v) := by
  have answers (v : Value) : Lasts s (answered v) := by
    unfold answered
    split
    · exact gives_throw _
    · exact gives_pure trivial
    · exact gives_of_error rfl
  cases v with
  | object r =>
    refine gives_get (gives_ite (fun _ => answers _) fun _ => ?_)
    refine gives_ite (fun _ => ?_) fun _ => gives_pure trivial
    exact (lasts_sizeOf _).bind fun _ _ _ _ => gives_pure trivial
  | _ => exact gives_get (gives_pure trivial)

theorem lasts_settle (v : Value) : Lasts s (settle v) := by
  have blank : Lasts s (isBlank v) := by
    refine gives_get ?_
    split
    · exact lasts_truth _
    · exact gives_pure trivial
  have marks : Lasts s (mark? v) :=
    blank.bind fun _ _ _ _ => gives_ite (fun _ => gives_pure trivial) fun _ =>
      gives_get (gives_pure trivial)
  refine marks.bind fun t found _ _ => ?_
  cases found with
  | none => exact gives_pure trivial
  | some attributes =>
    refine (lasts_make fun u => (Store.Grows.addPosition u attributes).le).bind fun _ _ _ _ => ?_
    exact gives_pure trivial

theorem gives_literal (v place : Value) : Gives s (literal v place) fun t n => t.IsBuilt n := by
  have fit : (Form.literal v).IsFit s := trivial
  exact fun _ _ ends => isBuilt_of_newNode fit nofun ends

theorem lasts_numberOf (self : TokenRef) (v : Value) : Lasts s (numberOf self v) := by
  have value {s : Store} (reading : NumberReading) : Lasts s (numberValue reading) := by
    rcases reading with n | x | - <;>
    exact lasts_stamp.bind fun _ _ _ _ => gives_pure trivial
  have whole {s : Store} (n : Int) : Lasts s (integer n) :=
    lasts_stamp.bind fun _ _ _ _ => gives_pure trivial
  unfold numberOf
  split
  · exact gives_pure trivial
  · exact gives_pure trivial
  · exact whole _
  · split
    · exact whole _
    · exact gives_fail _ _
  · refine gives_get ?_
    split
    · split
      · exact value _
      · refine (gives_ask _).bind fun _ _ _ _ => (lasts_settle _).bind fun _ _ _ _ => ?_
        exact gives_malformed _ _
    · exact gives_of_error rfl

theorem lasts_unquotedItems? (items : List Value) : Lasts s (unquotedItems? items) := by
  refine gives_get ?_
  split
  · split
    · refine (gives_ask _).bind fun _ _ _ _ => ?_
      exact gives_ite (fun _ => gives_pure trivial) fun _ => gives_pure trivial
    · exact gives_pure trivial
  · exact gives_pure trivial

theorem lasts_unquoted (v : Value) : Lasts s (unquoted v) := by
  have made {s : Store} {x : Nat → Value} :
      Lasts s (do return x (← make Store.addStamp) : Attempt Value) :=
    lasts_stamp.bind fun _ _ _ _ => gives_pure trivial
  refine gives_get ?_
  split
  · exact gives_ite (fun _ => gives_pure trivial) fun _ => made
  · refine (lasts_unquotedItems? _).bind fun _ inner _ _ => ?_
    cases inner with
    | none => exact gives_pure trivial
    | some inner => exact made
  · exact gives_ite (fun _ => gives_pure trivial) fun _ => gives_of_error rfl
  · refine gives_ite (fun _ => gives_of_error rfl) fun _ => (lasts_sizeOf _).bind fun _ _ _ _ => ?_
    exact gives_ite (fun _ => gives_pure trivial) fun _ => gives_misuse _
  · split
    · refine (lasts_unquotedItems? _).bind fun _ inner _ _ => ?_
      cases inner with
      | none => exact gives_pure trivial
      | some inner => exact made
    · exact gives_misuse _

/-- The name of a token is a text of its own. -/
theorem gives_nameOf (v : Value) :
    Gives s (nameOf v) fun _ name => ∃ text stamp, name = .str text stamp := by
  unfold nameOf
  split
  · exact gives_pure ⟨_, _, rfl⟩
  · refine (gives_ask _).bind fun _ _ _ _ => lasts_stamp.bind fun _ _ _ _ => ?_
    exact gives_pure ⟨_, _, rfl⟩

/-- The node of a token is a built tree. -/
theorem gives_lowerTerminal (t : Terminal) (self : TokenRef) (token : Token) :
    Gives s (lowerTerminal t self token) fun t n => t.IsBuilt n := by
  have placed {s : Store} (v : Value) :
      Gives s (do literal v (← settle (.token self)) : Attempt NodeRef) fun t n => t.IsBuilt n :=
    (lasts_settle _).bind fun _ _ _ _ => gives_literal _ _
  cases t with
  | number => exact (lasts_numberOf self _).bind fun _ _ _ _ => placed _
  | string => exact (lasts_unquoted _).bind fun _ _ _ _ => placed _
  | name =>
    refine (gives_nameOf _).bind fun _ name _ named => (lasts_settle _).bind fun u place _ _ => ?_
    obtain ⟨text, stamp, rfl⟩ := named
    have free : ∀ v ∈ [Value.str text stamp], u.Knows v := Store.knows_all rfl
    exact fun n t ends => runOn_reference_ok (free _ (List.mem_singleton_self _)) ends
  | true => exact placed _
  | false => exact placed _
  | null => exact placed _

/-! ## Rules -/

variable {pieces : List Piece}

theorem lasts_isPunctuation (rule : Rule) (token : Token) : Lasts s (isPunctuation rule token) :=
  (gives_ask _).bind fun _ _ _ _ => gives_get (gives_pure trivial)

/-- The operands of a rule are built trees, if its children are as far as they are nodes. -/
theorem gives_operandsOf (rule : Rule) (place : Value)
    (sound : ∀ piece ∈ pieces, piece.toValue.IsSound s) :
    Gives s (operandsOf rule place pieces) fun t vs => ∀ v ∈ vs, v.IsBuilt t := by
  induction pieces generalizing s with
  | nil => exact gives_pure (List.forall_mem_nil _)
  | cons piece pieces ih =>
    obtain ⟨first, rest⟩ := List.forall_mem_cons.1 sound
    cases piece with
    | value v =>
      rw [operandsOf]
      refine gives_ite (fun node => ?_) fun _ => gives_of_error rfl
      refine (ih rest).bind fun t vs le all => gives_pure (List.forall_mem_cons.2 ⟨?_, all⟩)
      exact (first.isBuilt node).mono le
    | token self cell =>
      rw [operandsOf]
      refine (lasts_isPunctuation rule cell).bind fun t _ le _ => ?_
      refine gives_ite (fun _ => ih fun v hv => (rest v hv).mono le) fun _ => ?_
      refine (gives_ask _).bind fun _ _ _ _ => (gives_ask _).bind fun _ _ _ _ => ?_
      exact (lasts_settle _).bind fun _ _ _ _ => gives_malformed _ _

/-- A call of built trees. -/
theorem gives_call {callee : Value} {args : List Value} (place : Value) (built : callee.IsBuilt s)
    (all : ∀ v ∈ args, v.IsBuilt s) :
    Gives s (do return .node (← call callee (← tuple args) place) : Attempt Value) fun t v =>
      v.IsBuilt t := by
  have tupled : Gives s (tuple args) fun _ v => ∃ stamp, v = .tuple args stamp :=
    lasts_stamp.bind fun _ stamp _ _ => gives_pure ⟨stamp, rfl⟩
  refine tupled.bind fun t v le same => ?_
  obtain ⟨stamp, rfl⟩ := same
  have made : Gives t (call callee (.tuple args stamp) place) fun t n => t.IsBuilt n := by
    refine fun n u ends => runOn_call_ok (built.mono le).knows (fun vs items v hv => ?_) ends
    obtain rfl := Option.some.inj items
    exact ((all v hv).mono le).knows
  exact made.bind fun _ n _ built => gives_pure ⟨n, rfl, built⟩

/-- A choice between built trees. -/
theorem gives_ternary {condition thenBranch elseBranch : Value} (place : Value)
    (all : ∀ v ∈ [condition, thenBranch, elseBranch], v.IsBuilt s) :
    Gives s (do return .node (← ternary condition thenBranch elseBranch place) : Attempt Value)
      fun t v => v.IsBuilt t := by
  have fit : (Form.ternary condition thenBranch elseBranch).IsFit s := trivial
  have made : Gives s (ternary condition thenBranch elseBranch place) fun t n => t.IsBuilt n :=
    fun n t ends => runOn_checked_ok fit (fun v hv => (all v hv).knows) ends
  exact made.bind fun _ n _ built => gives_pure ⟨n, rfl, built⟩

/-- The only child of a rule is a built tree. -/
theorem gives_onlyChild? (kind : NodeKind) (sound : ∀ piece ∈ pieces, piece.toValue.IsSound s) :
    Gives s (onlyChild? kind pieces) fun t v? => ∀ v, v? = some v → v.IsBuilt t := by
  unfold onlyChild?
  split
  · next v =>
    refine gives_get (gives_pure fun w same => ?_)
    split at same
    · next fits =>
      cases same
      refine (sound _ (List.mem_singleton_self _)).isBuilt ?_
      cases v with
      | node n => rfl
      | _ => cases fits
    · cases same
  · exact gives_pure nofun

/-- The only child of a rule is a built tree, if it is one. -/
theorem gives_single {kind : NodeKind} {message : String} (extent : Value)
    (sound : ∀ piece ∈ pieces, piece.toValue.IsSound s) :
    Gives s (do
      match ← onlyChild? kind pieces with
      | some v => return v
      | none => malformed (← settle extent) message : Attempt Value) fun t v => v.IsBuilt t := by
  refine (gives_onlyChild? kind sound).bind fun t v? _ built => ?_
  cases v? with
  | some v => exact gives_pure (built v rfl)
  | none => exact (lasts_settle _).bind fun _ _ _ _ => gives_malformed _ _

/-- The node of a rule is a built tree, if its children are as far as they are nodes. -/
theorem gives_lowerRule (rule : Rule) (extent : Value)
    (sound : ∀ piece ∈ pieces, piece.toValue.IsSound s) :
    Gives s (lowerRule rule pieces extent) fun t v => v.IsBuilt t := by
  have gathered {f : Value → List Value → Attempt Value}
      (join : ∀ t place vs, (∀ v ∈ vs, v.IsBuilt t) → Gives t (f place vs) fun t v => v.IsBuilt t) :
      Gives s (do
        let place ← settle extent
        f place (← operandsOf rule place pieces) : Attempt Value) fun t v => v.IsBuilt t :=
    (lasts_settle extent).bind fun t place le _ =>
      (gives_operandsOf rule place fun v hv => (sound v hv).mono le).bind fun u vs _ built =>
        join u place vs built
  cases rule with
  | literal => exact gives_single extent sound
  | var => exact gives_single extent sound
  | group =>
    refine gathered fun t place vs built => ?_
    split
    · exact gives_pure (built _ (List.mem_singleton_self _))
    · exact gives_malformed _ _
  | call =>
    refine gathered fun t place vs built => ?_
    split
    · obtain ⟨first, rest⟩ := List.forall_mem_cons.1 built
      exact gives_call place first rest
    · exact gives_malformed _ _
  | chain op =>
    exact gathered fun t place vs built => gives_chain op place fun v hv => (built v hv).isSound
  | ternary =>
    refine gathered fun t place vs built => ?_
    split
    · exact gives_ternary place built
    · exact gives_malformed _ _

end Attempt

/-! ## The walk -/

mutual

/-- The nodes that stand in the part of a parse tree, as they were when it was read. -/
def Parse.nodes : Parse → List NodeRef
  | .rule _ _ children _ => nodesOfAll children
  | .other (.node n) => [n]
  | _ => []

/-- The nodes that stand in the parts of a parse tree. -/
def Parse.nodesOfAll : List Parse → List NodeRef
  | [] => []
  | p :: more => p.nodes ++ nodesOfAll more

end

namespace Lowering

variable {α β : Type} {s : Store}

/-- If lowering ends well, what lasts has lasted and the result is as the predicate says. -/
def Gives (s : Store) (mode : Mode) (x : Lowering α) (P : Store → α → Prop) : Prop :=
  Attempt.Gives s (x.run mode) fun t a => P t a.1

section Rules

variable {mode : Mode} {x : Lowering α} {f : α → Lowering β} {P : Store → α → Prop}
  {Q : Store → β → Prop}

theorem gives_pure {a : α} (h : P s a) : Gives s mode (pure a) P :=
  Attempt.gives_pure h

theorem Gives.bind (hx : Gives s mode x P)
    (hf : ∀ t mode a, s ≤ t → P t a → Gives t mode (f a) Q) : Gives s mode (x >>= f) Q :=
  Attempt.Gives.bind hx fun t a le holds => hf t a.2 a.1 le holds

theorem gives_get {f : Mode → Lowering β} (h : Gives s mode (f mode) Q) :
    Gives s mode (get >>= f) Q :=
  h

theorem gives_modify {f : PUnit → Lowering β} {g : Mode → Mode} (h : Gives s (g mode) (f ⟨⟩) Q) :
    Gives s mode (modify g >>= f) Q :=
  h

theorem gives_lift {x : Attempt α} (h : Attempt.Gives s x P) : Gives s mode (liftM x) P :=
  Attempt.Gives.bind h fun _ _ _ holds => Attempt.gives_pure holds

theorem gives_ite {c : Prop} [Decidable c] {y : Lowering α} (hx : c → Gives s mode x P)
    (hy : ¬c → Gives s mode y P) : Gives s mode (if c then x else y) P := by
  split
  · next h => exact hx h
  · next h => exact hy h

/-- A value that was made by a constructor is a piece. -/
theorem gives_value {x : Attempt Value} (h : Attempt.Gives s x fun t v => v.IsBuilt t) :
    Gives s mode (do return Piece.value (← x)) fun t (piece : Piece) =>
      piece.toValue.IsSound t :=
  (gives_lift h).bind fun _ _ _ _ built => gives_pure built.isSound

end Rules

theorem gives_curio (typeName : String) :
    Attempt.Gives s (Attempt.curio typeName) fun t v => v.IsSound t :=
  Attempt.lasts_stamp.bind fun _ _ _ _ => Attempt.gives_pure nofun

/-- Whatever an operation of the base does, it makes no node. -/
theorem gives_operate (effect : Effect) (name subject : Value) {given : Piece}
    (sound : given.toValue.IsSound s) (mode : Mode) :
    Gives s mode (operate effect name subject given) fun t piece => piece.toValue.IsSound t := by
  cases effect with
  | fails m => exact gives_lift (Attempt.Gives.visit (Attempt.gives_misuse m) name subject)
  | handsBack => exact gives_pure sound
  | setsVisits visits? => exact gives_modify (gives_pure nofun)
  | yields typeName =>
    exact (gives_lift (gives_curio _)).bind fun _ _ _ _ sound => gives_pure sound
  | wraps wrapper typeName =>
    exact gives_modify ((gives_lift (gives_curio _)).bind fun _ _ _ _ sound => gives_pure sound)

theorem lasts_nameOf (v : Value) : Attempt.Lasts s (nameOf v) := by
  refine Attempt.gives_get ?_
  split
  · exact Attempt.gives_pure trivial
  · exact Attempt.gives_of_error rfl

theorem lasts_interpreter : Attempt.Lasts s Attempt.interpreter :=
  Attempt.gives_get (Attempt.gives_pure trivial)

/-- A rule becomes a built tree if it becomes a node at all. -/
theorem gives_rule (self : TreeRef) (label extent : Value) {pieces : List Piece}
    (sound : ∀ piece ∈ pieces, piece.toValue.IsSound s) (mode : Mode) :
    Gives s mode (rule self label pieces extent) fun t piece => piece.toValue.IsSound t := by
  refine (gives_lift (lasts_nameOf label)).bind fun t mode name le _ => ?_
  refine (gives_lift lasts_interpreter).bind fun t mode i le' _ => ?_
  have sound : ∀ piece ∈ pieces, piece.toValue.IsSound t :=
    fun v hv => (sound v hv).mono (le_trans le le')
  cases Meaning.of i name with
  | rule r =>
    exact gives_value ((Attempt.gives_lowerRule r extent sound).visit label (.tree self))
  | terminal terminal =>
    refine gives_get ?_
    split
    · exact gives_value (Attempt.Gives.visit (Attempt.gives_misuse _) label (.tree self))
    · refine (gives_lift (Attempt.gives_literal _ .null)).bind fun _ _ n _ built => ?_
      exact gives_pure (Value.IsBuilt.isSound ⟨n, rfl, built⟩)
    · exact gives_value (Attempt.Gives.visit (Attempt.gives_misuse _) label (.tree self))
  | operation op =>
    have listed : Attempt.Gives t (Attempt.list (pieces.map Piece.toValue)) fun u v =>
        v.IsSound u :=
      Attempt.lasts_stamp.bind fun _ _ _ _ => Attempt.gives_pure nofun
    exact (gives_lift listed).bind fun _ mode _ _ sound =>
      gives_get (gives_operate _ label _ sound mode)
  | unknown =>
    exact (gives_lift (Attempt.lasts_settle extent)).bind fun _ _ _ _ _ =>
      gives_lift (Attempt.gives_malformed _ _)

/-- A token becomes a built tree if it becomes a node at all. -/
theorem gives_token (self : TokenRef) (cell : Token) (mode : Mode) :
    Gives s mode (token self cell) fun t piece => piece.toValue.IsSound t := by
  have stays (t : Store) : (Piece.token self cell).toValue.IsSound t := nofun
  refine gives_get (gives_ite (fun _ => gives_pure (stays s)) fun _ => ?_)
  refine (gives_lift (lasts_nameOf cell.kind)).bind fun t mode name _ _ => ?_
  refine (gives_lift lasts_interpreter).bind fun t mode i _ _ => ?_
  cases Meaning.of i name with
  | rule r => exact gives_value (Attempt.Gives.visit (Attempt.gives_fail _ _) cell.kind _)
  | terminal terminal =>
    have made : Attempt.Gives t (Value.node <$> Attempt.lowerTerminal terminal self cell)
        fun t v => v.IsBuilt t := by
      rw [← bind_pure_comp]
      exact (Attempt.gives_lowerTerminal terminal self cell).bind fun _ n _ built =>
        Attempt.gives_pure ⟨n, rfl, built⟩
    exact gives_value (made.visit cell.kind _)
  | operation op => exact gives_get (gives_operate _ cell.kind _ (stays t) mode)
  | unknown => exact gives_pure (stays t)

theorem gives_exhausted (name subject : Value) :
    Attempt.Gives s (Attempt.exhausted name subject : Attempt α) P := by
  refine lasts_interpreter.bind fun t i _ _ => ?_
  split
  · exact Attempt.Gives.visit (Attempt.gives_misuse _) name subject
  · exact Attempt.gives_misuse _

mutual

/-- A part of a parse tree in which every node is a built tree becomes one, if it becomes a node at
all. -/
theorem gives_part : ∀ {p : Parse} {s : Store} (mode : Mode), (∀ n ∈ p.nodes, s.IsBuilt n) →
    Gives s mode (part p) fun t piece => piece.toValue.IsSound t
  | .rule self label children extent, _, mode, built =>
    (gives_parts mode built).bind fun _ mode _ _ sound =>
      gives_rule self label extent sound mode
  | .token self cell, _, mode, _ => gives_token self cell mode
  | .other v, s, _, built => by
    refine gives_pure fun n same => built n ?_
    obtain rfl : v = .node n := same
    exact List.mem_singleton_self n
  | .unreadable m, _, _, _ => gives_lift (Attempt.gives_misuse m)
  | .tooDeep name subject, _, _, _ => gives_lift (gives_exhausted name subject)

theorem gives_parts : ∀ {ps : List Parse} {s : Store} (mode : Mode),
    (∀ n ∈ Parse.nodesOfAll ps, s.IsBuilt n) →
    Gives s mode (parts ps) fun t pieces => ∀ piece ∈ pieces, piece.toValue.IsSound t
  | [], _, _, _ => gives_pure (List.forall_mem_nil _)
  | p :: ps, s, mode, built => by
    refine (gives_part mode fun n hn => built n (List.mem_append_left _ hn)).bind
      fun t mode piece le sound => ?_
    refine (gives_parts mode fun n hn => (built n (List.mem_append_right _ hn)).mono le).bind
      fun u _ pieces le' rest => gives_pure ?_
    split
    · exact rest
    · exact List.forall_mem_cons.2 ⟨sound.mono le', rest⟩

end

end Lowering

namespace Attempt

variable {s : Store}

/-- The root of a parse tree holds the nodes that stand in the tree. -/
theorem gives_rooted (v : Value) (orderly : s.IsOrderly) :
    Gives s (rooted v) fun t root => ∀ n ∈ (t.parse root).nodes, n ∈ (s.parse v).nodes := by
  cases v with
  | token r =>
    intro root t ends
    rw [runOn_rooted_token] at ends
    cases ends
    have children : (s.grouped r).items? ((s.grouped r).tree ⟨s.trees.size⟩).children =
        some [.token r] := by
      rw [Store.tree_grouped]
      exact Store.items?_grouped orderly r
    have parsed : ((s.grouped r).parse (.tree ⟨s.trees.size⟩)).nodes = [] := by
      rw [Store.parse]
      cases (s.grouped r).interpreter.treeDepth with
      | zero => rfl
      | succ depth =>
        rw [Lowering.parsePart_tree children]
        cases depth <;> rfl
    exact ⟨Store.le_of_eq rfl rfl rfl, fun n hn => absurd (parsed ▸ hn) List.not_mem_nil⟩
  | _ => exact gives_pure fun n hn => hn

/-- What lowering a parse tree ends with is a built tree, if the nodes that stand in the tree
are. -/
theorem gives_lower {v : Value} (orderly : s.IsOrderly)
    (built : ∀ n ∈ (s.parse v).nodes, s.IsBuilt n) :
    Gives s (lower v) fun t w => w.IsBuilt t := by
  refine (gives_rooted v orderly).bind fun t root le within => gives_get ?_
  refine Lowering.lasts_interpreter.bind fun t' i le' _ => ?_
  have walked := Lowering.gives_part i.mode fun n hn =>
    ((built n (within n hn)).mono le).mono le'
  refine Gives.bind walked fun u found _ sound => ?_
  refine gives_ite (fun node => gives_pure ?_) fun _ => gives_of_error rfl
  by_cases discard : found.1.isDiscard = true
  · rw [if_pos discard] at node
    cases node
  · rw [if_neg discard] at node ⊢
    exact sound.isBuilt node

end Attempt

end Fallback
