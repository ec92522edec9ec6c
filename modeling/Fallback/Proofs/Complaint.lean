import Fallback.Proofs.Lowering
import Fallback.Proofs.Marks

/-!
What lowering says of trees that differ only in marks.

Two trees that differ only in marks are lowered side by side, each in a store of its own. A fault
that ends one run has a twin in the other: it is of the same kind, and its message is the same text
(`Attempt.Concurs`). Messages are made of labels and kinds of tokens, of texts, of numbers of parts
and of names of types, and marks are none of these; they end up in the place of a fault, which is
not compared. The message of a failed visit holds the whole text of the fault behind it, and that
has no place either, since a visit lets the report of a broken tree through.

There is one law for each function that makes a node or reports that there is none. What a value is
that is neither rule nor token nor node counts only by the name of its type, which has to be the same
on both sides.
-/
namespace Fallback

/-- The name of a type lasts, once what the value refers to was made. -/
theorem Store.Grows.typeName {s t : Store} (h : s.Grows t) {v : Value} (noNode : v.isNode = false)
    (made : ∀ e, v = .fault e → e.index < s.faults.size) : t.typeName v = s.typeName v := by
  cases v with
  | node n => cases noNode
  | fault e => exact congrArg FaultKind.name (h.le.kind (made e rfl)).2
  | outcome o => simp only [Store.typeName, outcome, h.outcomes]
  | object o => simp only [Store.typeName, object, h.objects]
  | _ => rfl

/-! ## Faults with a message -/

/-- The fault is of a kind, and a message is all that it was made with. Unless it reports a broken
tree, its text is the message. -/
structure Store.Reports (s : Store) (e : FaultRef) (kind : FaultKind) (message : String) : Prop where
  made : e.index < s.faults.size
  kind_eq : (s.fault e).kind = kind
  args_eq : ∃ stamp stamp', (s.fault e).args = .tuple [.str message stamp] stamp'
  shown : kind ≠ .malformed → s.plainText (.fault e) = .ok message

theorem Store.reports_addFault (s : Store) {e : Fault} {message : String} {stamp stamp' : Nat}
    (args : e.args = .tuple [.str message stamp] stamp') (plain : e.kind ≠ .missingKey)
    (unplaced : e.kind ≠ .malformed → e.place = .null) :
    (s.addFault e).2.Reports (s.addFault e).1 e.kind message := by
  have made := s.fault_addFault_self e
  refine ⟨?_, by rw [made], ⟨stamp, stamp', by rw [made, args]⟩, fun other => ?_⟩
  · show s.faults.size < (s.faults.push e).size
    rw [Array.size_push]
    exact Nat.lt_succ_self _
  · refine plainText_of_args (by rw [made, args]) ?_ ?_
    · rw [made]
      exact plain
    · rw [made]
      exact unplaced other

/-- A message that was just made is reported. -/
theorem Store.reports_faultAt (s : Store) {kind : FaultKind} {place : Value} (message : String)
    (plain : kind ≠ .missingKey) (unplaced : kind ≠ .malformed → place = .null) :
    (s.addStamp.2.addStamp.2.addFault (Attempt.faultAt s kind place message)).2.Reports
      ⟨s.faults.size⟩ kind message := by
  refine reports_addFault (e := Attempt.faultAt s kind place message) _ rfl plain fun other => ?_
  rw [Attempt.faultAt, unplaced other]

namespace Attempt

variable {s s' t t' : Store} {α α' β β' : Type}

/-! ## Attempts that end alike -/

/-- The two attempts end alike, and make nothing but what lowering makes: both have a result and
the results are related, or both end with a fault of the same kind with the same message. -/
inductive Concurs (s s' : Store) (x : Attempt α) (x' : Attempt α')
    (R : Store → Store → α → α' → Prop) : Prop
  | results {a : α} {a' : α'} {t t' : Store} (runs : x.runOn s = (.ok a, t))
      (runs' : x'.runOn s' = (.ok a', t')) (grows : s.Grows t) (grows' : s'.Grows t')
      (related : R t t' a a')
  | faults {e e' : FaultRef} {t t' : Store} {kind : FaultKind} {message : String}
      (runs : x.runOn s = (.error e, t)) (runs' : x'.runOn s' = (.error e', t'))
      (grows : s.Grows t) (grows' : s'.Grows t') (reports : t.Reports e kind message)
      (reports' : t'.Reports e' kind message)

namespace Concurs

variable {x : Attempt α} {x' : Attempt α'} {f : α → Attempt β} {f' : α' → Attempt β'}
  {R : Store → Store → α → α' → Prop} {R' : Store → Store → β → β' → Prop}

theorem pure {a : α} {a' : α'} (related : R s s' a a') :
    Concurs s s' (pure a) (pure a') R :=
  .results rfl rfl (.refl s) (.refl s') related

theorem mono {Q : Store → Store → α → α' → Prop} (h : Concurs s s' x x' R)
    (weaker : ∀ t t' a a', R t t' a a' → Q t t' a a') : Concurs s s' x x' Q := by
  cases h with
  | results runs runs' grows grows' related =>
    exact .results runs runs' grows grows' (weaker _ _ _ _ related)
  | faults runs runs' grows grows' reports reports' =>
    exact .faults runs runs' grows grows' reports reports'

/-- What was made before stays made, on both sides. -/
theorem after {a : α} {a' : α'} (first : x.runOn s = (.ok a, t)) (first' : x'.runOn s' = (.ok a', t'))
    (grows : s.Grows t) (grows' : s'.Grows t') (h : Concurs t t' (f a) (f' a') R') :
    Concurs s s' (x >>= f) (x' >>= f') R' := by
  have runs := Work.runOn_bind_ok first f
  have runs' := Work.runOn_bind_ok first' f'
  cases h with
  | results rest rest' more more' related =>
    exact .results (runs.trans rest) (runs'.trans rest') (grows.trans more) (grows'.trans more')
      related
  | faults rest rest' more more' reports reports' =>
    exact .faults (runs.trans rest) (runs'.trans rest') (grows.trans more) (grows'.trans more')
      reports reports'

theorem bind (h : Concurs s s' x x' R)
    (hf : ∀ t t' a a', s.Grows t → s'.Grows t' → R t t' a a' → Concurs t t' (f a) (f' a') R') :
    Concurs s s' (x >>= f) (x' >>= f') R' := by
  cases h with
  | results runs runs' grows grows' related =>
    exact after runs runs' grows grows' (hf _ _ _ _ grows grows' related)
  | faults runs runs' grows grows' reports reports' =>
    exact .faults (Work.runOn_bind_error runs f) (Work.runOn_bind_error runs' f') grows grows'
      reports reports'

/-- A look at the stores on both sides. -/
theorem get {f : Store → Attempt β} {f' : Store → Attempt β'}
    (h : Concurs s s' (f s) (f' s') R') :
    Concurs s s' (MonadState.get >>= f) (MonadState.get >>= f') R' :=
  after (Work.runOn_get s) (Work.runOn_get s') (.refl s) (.refl s') h

/-- Attempts that are both expected to have results. -/
theorem of_follows {b b' : β} {Q : Store → β → α → Prop} {Q' : Store → β → α' → Prop}
    (h : Follows s x (.ok b) Q) (h' : Follows s' x' (.ok b') Q') :
    Concurs s s' x x' fun t t' a a' => Q t b a ∧ Q' t' b' a' := by
  obtain ⟨a, t, runs, grows, holds⟩ := h
  obtain ⟨a', t', runs', grows', holds'⟩ := h'
  exact .results runs runs' grows grows' ⟨holds, holds'⟩

/-- Nodes as values. -/
theorem toValue {x x' : Attempt NodeRef} {R : Store → Store → Value → Value → Prop}
    (h : Concurs s s' x x' fun t t' n n' => R t t' (.node n) (.node n')) :
    Concurs s s' (Value.node <$> x) (Value.node <$> x') R := by
  cases h with
  | results runs runs' grows grows' related =>
    exact .results (by rw [Work.runOn_map, runs]; rfl) (by rw [Work.runOn_map, runs']; rfl) grows
      grows' related
  | faults runs runs' grows grows' reports reports' =>
    exact .faults (by rw [Work.runOn_map, runs]; rfl) (by rw [Work.runOn_map, runs']; rfl) grows
      grows' reports reports'

end Concurs

section Faults

variable {R : Store → Store → α → α' → Prop}

theorem concurs_malformed (place place' : Value) (message : String) :
    Concurs s s' (malformed place message : Attempt α) (malformed place' message : Attempt α') R :=
  .faults (runOn_malformed place message s) (runOn_malformed place' message s')
    (.faultAt s .malformed place message) (.faultAt s' .malformed place' message)
    (s.reports_faultAt message nofun fun other => absurd rfl other)
    (s'.reports_faultAt message nofun fun other => absurd rfl other)

theorem concurs_fail {kind : FaultKind} (plain : kind ≠ .missingKey) (message : String) :
    Concurs s s' (fail kind message : Attempt α) (fail kind message : Attempt α') R :=
  .faults rfl rfl (.faultAt s kind .null message) (.faultAt s' kind .null message)
    (s.reports_faultAt message plain fun _ => rfl) (s'.reports_faultAt message plain fun _ => rfl)

theorem concurs_misuse (m : Misuse) :
    Concurs s s' (misuse m : Attempt α) (misuse m : Attempt α') R :=
  concurs_fail m.kind_ne.2 m.message

end Faults

theorem runOn_tuple (items : List Value) (s : Store) :
    (tuple items).runOn s = (.ok (.tuple items s.nextStamp), s.addStamp.2) := rfl

theorem runOn_list (items : List Value) (s : Store) :
    (list items).runOn s = (.ok (.list items s.nextStamp), s.addStamp.2) := rfl

theorem runOn_interpreter (s : Store) : interpreter.runOn s = (.ok s.interpreter, s) := rfl

/-! ## Positions and nodes -/

theorem concurs_settle {v v' : Value} {mark mark' : Mark} (marked : s.Marked v mark)
    (marked' : s'.Marked v' mark') :
    Concurs s s' (settle v) (settle v') fun _ _ _ _ => True :=
  (Concurs.of_follows (follows_settle marked) (follows_settle marked')).mono fun _ _ _ _ _ => trivial

end Attempt

/-- The values are nodes of one kind. -/
inductive Value.MatchesNode (s s' : Store) : Value → Value → Prop
  | node {n n' : NodeRef} (made : n.index < s.nodes.size) (made' : n'.index < s'.nodes.size)
      (kind : (s.form n).kind = (s'.form n').kind) : MatchesNode s s' (.node n) (.node n')

theorem Value.MatchesNode.grow {s s' t t' : Store} {v v' : Value} (h : v.MatchesNode s s' v')
    (grows : s.Grows t) (grows' : s'.Grows t') : v.MatchesNode t t' v' := by
  cases h with
  | node made made' kind =>
    obtain ⟨there, same⟩ := grows.le.node made
    obtain ⟨there', same'⟩ := grows'.le.node made'
    exact .node there there' (by rw [Store.form, Store.form, same, same']; exact kind)

theorem Value.matchesNode_all_grow {s s' t t' : Store} {vs vs' : List Value}
    (h : List.Forall₂ (MatchesNode s s') vs vs') (grows : s.Grows t) (grows' : s'.Grows t') :
    List.Forall₂ (MatchesNode t t') vs vs' :=
  h.imp fun _ _ first => first.grow grows grows'

namespace Attempt

variable {s s' t t' : Store}

theorem concurs_newNode {form form' : Form} (kind : form.kind = form'.kind) (place place' : Value) :
    Concurs s s' (newNode form place) (newNode form' place') fun t t' n n' =>
      (Value.node n).MatchesNode t t' (.node n') := by
  refine .results rfl rfl (.addNode s ⟨form, place, []⟩) (.addNode s' ⟨form', place', []⟩)
    (.node ?_ ?_ ?_)
  · show s.nodes.size < (s.nodes.push _).size
    rw [Array.size_push]
    exact Nat.lt_succ_self _
  · show s'.nodes.size < (s'.nodes.push _).size
    rw [Array.size_push]
    exact Nat.lt_succ_self _
  · have made := s.node_addNode_self ⟨form, place, []⟩
    have made' := s'.node_addNode_self ⟨form', place', []⟩
    exact ((congrArg (fun cell : Node => cell.form.kind) made).trans kind).trans
      (congrArg (fun cell : Node => cell.form.kind) made').symm

/-! ## Terminals -/

/-- A value that is known and then gets a place. -/
theorem concurs_literal_at {self self' v v' : Value} {mark mark' : Mark}
    (marked : s.Marked self mark) (marked' : s'.Marked self' mark') :
    Concurs s s' (do literal v (← settle self)) (do literal v' (← settle self')) fun t t' n n' =>
      (Value.node n).MatchesNode t t' (.node n') :=
  (concurs_settle marked marked').bind fun _ _ _ _ _ _ _ =>
    concurs_newNode (show (Form.literal v).kind = (Form.literal v').kind from rfl) _ _

/-- The numbers that two tokens stand for, or the report that they spell no number. -/
theorem concurs_numberOf {self self' : TokenRef} (text : String) (stamp stamp' : Nat) :
    Concurs s s' (numberOf self (.str text stamp)) (numberOf self' (.str text stamp'))
      fun _ _ _ _ => True := by
  have number {s : Store} {self : TokenRef} (stamp : Nat) :=
    follows_numberOf text stamp (s.marked_token self)
  cases spelt : NumberReading.of? text with
  | some n =>
    have first := @number s self stamp
    have second := @number s' self' stamp'
    rw [spelt] at first second
    exact (Concurs.of_follows first second).mono fun _ _ _ _ _ => trivial
  | none =>
    simp only [numberOf]
    refine .get ?_
    simp only [Store.text?, spelt]
    refine .after (runOn_quotedText rfl) (runOn_quotedText rfl) (.refl s) (.refl s') ?_
    exact (concurs_settle (s.marked_token self) (s'.marked_token self')).bind
      fun _ _ _ _ _ _ _ => concurs_malformed _ _ _

theorem concurs_reference (text : String) (stamp stamp' : Nat) (place place' : Value) :
    Concurs s s' (reference (.str text stamp) place) (reference (.str text stamp') place')
      fun t t' n n' => (Value.node n).MatchesNode t t' (.node n') := by
  rw [reference, reference]
  refine .get ?_
  simp only [Store.text?]
  split
  · exact .after (runOn_quotedText rfl) (runOn_quotedText rfl) (.refl s) (.refl s')
      (concurs_malformed _ _ _)
  · have kind : (Form.reference (.str text stamp)).kind = (Form.reference (.str text stamp')).kind :=
      rfl
    exact concurs_newNode kind _ _

/-- Tokens of one kind with one text become nodes of one kind, or are refused alike. -/
theorem concurs_lowerTerminal (terminal : Terminal) {self self' : TokenRef} {cell cell' : Token}
    {text : String} {stamp stamp' : Nat} (spells : cell.value = .str text stamp)
    (spells' : cell'.value = .str text stamp') :
    Concurs s s' (lowerTerminal terminal self cell) (lowerTerminal terminal self' cell')
      fun t t' n n' => (Value.node n).MatchesNode t t' (.node n') := by
  have place {s s' : Store} {v v' : Value} :
      Concurs s s' (do literal v (← settle (.token self))) (do literal v' (← settle (.token self')))
        fun t t' n n' => (Value.node n).MatchesNode t t' (.node n') :=
    concurs_literal_at (s.marked_token self) (s'.marked_token self')
  cases terminal with
  | number =>
    simp only [lowerTerminal, spells, spells']
    exact (concurs_numberOf text stamp stamp').bind fun _ _ _ _ _ _ _ => place
  | string =>
    simp only [lowerTerminal, spells, spells']
    exact (Concurs.of_follows (follows_unquoted text stamp) (follows_unquoted text stamp')).bind
      fun _ _ _ _ _ _ _ => place
  | name =>
    simp only [lowerTerminal, spells, spells']
    exact (concurs_settle (s.marked_token self) (s'.marked_token self')).bind
      fun _ _ _ _ _ _ _ => concurs_reference text stamp stamp' _ _
  | true => exact place
  | false => exact place
  | null => exact place

end Attempt

/-! ## Operands -/

/-- The two pieces are alike: tokens of one kind with one text, nodes of one kind, or other values of
one type. -/
inductive Piece.Alike (s s' : Store) : Piece → Piece → Prop
  | token {self self' : TokenRef} {cell cell' : Token} {kind text : String} {stamp stamp' : Nat}
      (spells : cell.value = .str text stamp) (spells' : cell'.value = .str text stamp')
      (named : s.text? cell.kind = some kind) (named' : s'.text? cell'.kind = some kind) :
      Alike s s' (.token self cell) (.token self' cell')
  | node {v v' : Value} (same : v.MatchesNode s s' v') : Alike s s' (.value v) (.value v')
  | other {v v' : Value} (noNode : v.isNode = false) (noNode' : v'.isNode = false)
      (discard : v.isDiscard = v'.isDiscard)
      (typed : ∀ {t t'}, s.Grows t → s'.Grows t' → t.typeName v = t'.typeName v') :
      Alike s s' (.value v) (.value v')

namespace Piece

variable {s s' t t' : Store} {piece piece' : Piece}

theorem Alike.grow (h : piece.Alike s s' piece') (grows : s.Grows t) (grows' : s'.Grows t') :
    piece.Alike t t' piece' := by
  cases h with
  | token spells spells' named named' =>
    exact .token spells spells' ((grows.text? _).trans named) ((grows'.text? _).trans named')
  | node same => exact .node (same.grow grows grows')
  | other noNode noNode' discard typed =>
    exact .other noNode noNode' discard fun more more' =>
      typed (grows.trans more) (grows'.trans more')

/-- Pieces that are alike are dropped together. -/
theorem Alike.isDiscard (h : piece.Alike s s' piece') : piece.isDiscard = piece'.isDiscard := by
  cases h with
  | token => rfl
  | node same =>
    cases same
    rfl
  | other _ _ discard => exact discard

/-- Pieces that are alike are both nodes, or neither is and both are of one type. -/
theorem Alike.toValue (h : piece.Alike s s' piece') :
    piece.toValue.MatchesNode s s' piece'.toValue ∨
      piece.toValue.isNode = false ∧ piece'.toValue.isNode = false ∧
        s.typeName piece.toValue = s'.typeName piece'.toValue := by
  cases h with
  | token => exact .inr ⟨rfl, rfl, rfl⟩
  | node same => exact .inl same
  | other noNode noNode' _ typed => exact .inr ⟨noNode, noNode', typed (.refl s) (.refl s')⟩

end Piece

namespace Attempt

variable {s s' : Store} {pieces pieces' : List Piece}

/-- The operands of a rule match, or something else among them is reported alike. -/
theorem concurs_operandsOf (rule : Rule) (place place' : Value)
    (alike : List.Forall₂ (Piece.Alike s s') pieces pieces') :
    Concurs s s' (operandsOf rule place pieces) (operandsOf rule place' pieces') fun t t' =>
      List.Forall₂ (Value.MatchesNode t t') := by
  induction alike with
  | nil => exact .pure .nil
  | cons first _ ih =>
    cases first with
    | @token self self' cell cell' kind text stamp stamp' spells spells' named named' =>
      rw [operandsOf, operandsOf]
      refine .after (runOn_isPunctuation rule spells) (runOn_isPunctuation rule spells') (.refl s)
        (.refl s') ?_
      split
      · exact ih
      · have shown {s : Store} {cell : Token} {stamp : Nat} (spells : cell.value = .str text stamp) :
            s.quotedText cell.value = .ok (Text.quote text) := by
          rw [spells]
          rfl
        refine .after (runOn_plainText (Store.plainText_of_text named))
          (runOn_plainText (Store.plainText_of_text named')) (.refl s) (.refl s') ?_
        refine .after (runOn_quotedText (shown spells)) (runOn_quotedText (shown spells')) (.refl s)
          (.refl s') ?_
        exact (concurs_settle (s.marked_token self) (s'.marked_token self')).bind
          fun _ _ _ _ _ _ _ => concurs_malformed _ _ _
    | node same =>
      cases same with
      | node made made' kind =>
        rw [operandsOf, operandsOf]
        refine ih.bind fun t t' vs vs' grows grows' rest => .pure (.cons ?_ rest)
        exact (Value.MatchesNode.node made made' kind).grow grows grows'
    | other noNode noNode' _ typed =>
      rw [operandsOf, operandsOf]
      simp only [noNode, noNode', Bool.false_eq_true, if_false]
      refine .after (runOn_typeName _ s) (runOn_typeName _ s') (.refl s) (.refl s') ?_
      rw [typed (.refl s) (.refl s')]
      exact concurs_malformed _ _ _

/-! ## Rules -/

theorem isNode_of_matches {vs vs' : List Value}
    (same : List.Forall₂ (Value.MatchesNode s s') vs vs') :
    (∀ v ∈ vs, v.isNode = true) ∧ ∀ v ∈ vs', v.isNode = true := by
  induction same with
  | nil => exact ⟨List.forall_mem_nil _, List.forall_mem_nil _⟩
  | cons first _ ih =>
    cases first with
    | node => exact ⟨List.forall_mem_cons.2 ⟨rfl, ih.1⟩, List.forall_mem_cons.2 ⟨rfl, ih.2⟩⟩

/-- A new node over nodes, as a value. -/
theorem concurs_over {kind : NodeKind} {form form' : Form} {vs vs' : List Value}
    (same : List.Forall₂ (Value.MatchesNode s s') vs vs') (kinds : form.kind = form'.kind)
    (place place' : Value) :
    Concurs s s' (do requireNodes kind place vs; newNode form place)
      (do requireNodes kind place' vs'; newNode form' place') fun t t' n n' =>
        (Value.node n).MatchesNode t t' (.node n') :=
  .after (runOn_requireNodes (isNode_of_matches same).1 kind place s)
    (runOn_requireNodes (isNode_of_matches same).2 kind place' s') (.refl s) (.refl s')
    (concurs_newNode kinds place place')

theorem concurs_fallback (op : Operator) {l l' r r' : Value} (left : l.MatchesNode s s' l')
    (right : r.MatchesNode s s' r') (place place' : Value) :
    Concurs s s' (fallback op l r place) (fallback op l' r' place') fun t t' n n' =>
      (Value.node n).MatchesNode t t' (.node n') := by
  have kinds : (Form.fallback op l r).kind = (Form.fallback op l' r').kind := rfl
  exact concurs_over (.cons left (.cons right .nil)) kinds place place'

/-- Operands that match, folded onto last ones that match. -/
theorem concurs_foldOnto (op : Operator) (place place' : Value) {v v' last last' : Value}
    {vs vs' : List Value} (first : v.MatchesNode s s' v')
    (rest : List.Forall₂ (Value.MatchesNode s s') vs vs') (final : (v :: vs).getLast? = some last)
    (final' : (v' :: vs').getLast? = some last') :
    Concurs s s' (foldOnto (fun lhs rhs => fallback op lhs rhs place) last (v :: vs).dropLast)
      (foldOnto (fun lhs rhs => fallback op lhs rhs place') last' (v' :: vs').dropLast)
      fun t t' => Value.MatchesNode t t' := by
  induction rest generalizing v v' with
  | nil =>
    cases final
    cases final'
    exact .pure first
  | cons second rest ih =>
    rw [List.getLast?_cons_cons] at final final'
    rw [List.dropLast_cons_cons, List.dropLast_cons_cons, foldOnto, foldOnto]
    refine (ih second final final').bind fun t t' r r' grows grows' right => ?_
    refine (concurs_fallback op (first.grow grows grows') right place place').bind ?_
    exact fun _ _ _ _ _ _ same => .pure same

theorem concurs_chain (op : Operator) {vs vs' : List Value}
    (same : List.Forall₂ (Value.MatchesNode s s') vs vs') (place place' : Value) :
    Concurs s s' (chain op vs place) (chain op vs' place') fun t t' => Value.MatchesNode t t' := by
  obtain ⟨nodes, nodes'⟩ := isNode_of_matches same
  match same with
  | .nil => exact concurs_malformed _ _ _
  | .cons _ .nil => exact concurs_malformed _ _ _
  | @List.Forall₂.cons _ _ _ v v' (w :: ws) (w' :: ws') first (.cons second rest) =>
    obtain ⟨last, final⟩ : ∃ last, (v :: w :: ws).getLast? = some last :=
      ⟨_, List.getLast?_eq_some_getLast (List.cons_ne_nil _ _)⟩
    obtain ⟨last', final'⟩ : ∃ last', (v' :: w' :: ws').getLast? = some last' :=
      ⟨_, List.getLast?_eq_some_getLast (List.cons_ne_nil _ _)⟩
    have enough {v w : Value} {ws : List Value} : ¬(v :: w :: ws).length < 2 := by simp
    rw [chain, chain, foldRight, foldRight, final, final']
    simp only [enough, if_false]
    refine .after (runOn_requireOperands nodes _ _ s) (runOn_requireOperands nodes' _ _ s')
      (.refl s) (.refl s') ?_
    exact concurs_foldOnto op place place' first (.cons second rest) final final'

/-- Calls of nodes with nodes. -/
theorem concurs_call {v v' : Value} {vs vs' : List Value} (callee : v.MatchesNode s s' v')
    (args : List.Forall₂ (Value.MatchesNode s s') vs vs') (place place' : Value) :
    Concurs s s' (do return .node (← call v (← tuple vs) place) : Attempt Value)
      (do return .node (← call v' (← tuple vs') place') : Attempt Value)
      fun t t' => Value.MatchesNode t t' := by
  cases callee with
  | @node c c' made made' kind =>
    have grows := Store.Grows.addStamp s
    have grows' := Store.Grows.addStamp s'
    refine .after (runOn_tuple vs s) (runOn_tuple vs' s') grows grows' ?_
    have same : List.Forall₂ (Value.MatchesNode s.addStamp.2 s'.addStamp.2) (.node c :: vs)
        (.node c' :: vs') :=
      .cons ((Value.MatchesNode.node made made' kind).grow grows grows')
        (Value.matchesNode_all_grow args grows grows')
    have kinds : (Form.call (.node c) (.tuple vs s.nextStamp)).kind =
        (Form.call (.node c') (.tuple vs' s'.nextStamp)).kind := rfl
    have made : Concurs s.addStamp.2 s'.addStamp.2
        (call (.node c) (.tuple vs s.nextStamp) place)
        (call (.node c') (.tuple vs' s'.nextStamp) place') fun t t' n n' =>
          (Value.node n).MatchesNode t t' (.node n') :=
      concurs_over same kinds place place'
    exact made.bind fun _ _ _ _ _ _ same => .pure same

theorem concurs_ternary {c c' t t' e e' : Value} (condition : c.MatchesNode s s' c')
    (thenBranch : t.MatchesNode s s' t') (elseBranch : e.MatchesNode s s' e')
    (place place' : Value) :
    Concurs s s' (do return .node (← ternary c t e place) : Attempt Value)
      (do return .node (← ternary c' t' e' place') : Attempt Value)
      fun t t' => Value.MatchesNode t t' := by
  have kinds : (Form.ternary c t e).kind = (Form.ternary c' t' e').kind := rfl
  have made : Concurs s s' (ternary c t e place) (ternary c' t' e' place') fun t t' n n' =>
      (Value.node n).MatchesNode t t' (.node n') :=
    concurs_over (.cons condition (.cons thenBranch (.cons elseBranch .nil))) kinds place place'
  exact made.bind fun _ _ _ _ _ _ same => .pure same

/-- The only children of two rules, if they are nodes of the kind. -/
theorem concurs_onlyChild? (kind : NodeKind) (alike : List.Forall₂ (Piece.Alike s s') pieces pieces') :
    Concurs s s' (onlyChild? kind pieces) (onlyChild? kind pieces') fun t t' v? v?' =>
      v? = none ∧ v?' = none ∨ ∃ v v', v? = some v ∧ v?' = some v' ∧ v.MatchesNode t t' v' := by
  match alike with
  | .nil => exact .pure (.inl ⟨rfl, rfl⟩)
  | .cons (a := piece) (b := piece') _ (.cons _ _) =>
    cases piece <;> cases piece' <;> exact .pure (.inl ⟨rfl, rfl⟩)
  | .cons (a := piece) (b := piece') first .nil =>
    cases first with
    | token => exact .pure (.inl ⟨rfl, rfl⟩)
    | @other v v' noNode noNode' _ =>
      have formless {s : Store} {v : Value} (noNode : v.isNode = false) : s.formOf? v = none := by
        cases v with
        | node n => cases noNode
        | _ => rfl
      rw [onlyChild?, onlyChild?]
      refine .get (.pure (.inl ?_))
      rw [formless noNode, formless noNode']
      exact ⟨rfl, rfl⟩
    | node same =>
      cases same with
      | @node n n' made made' kinds =>
        rw [onlyChild?, onlyChild?]
        refine .get (.pure ?_)
        simp only [Store.formOf?, Option.any_some, kinds, decide_eq_true_eq]
        by_cases fits : (s'.form n').kind = kind
        · rw [if_pos fits, if_pos fits]
          exact .inr ⟨_, _, rfl, rfl, .node made made' kinds⟩
        · rw [if_neg fits, if_neg fits]
          exact .inl ⟨rfl, rfl⟩

section Rules

variable {extent extent' : Value} {mark mark' : Mark} (marked : s.Marked extent mark)
  (marked' : s'.Marked extent' mark') (alike : List.Forall₂ (Piece.Alike s s') pieces pieces')
include marked marked' alike

theorem concurs_single (kind : NodeKind) (message : String) :
    Concurs s s' (do
      match ← onlyChild? kind pieces with
      | some v => return v
      | none => malformed (← settle extent) message : Attempt Value)
      (do
      match ← onlyChild? kind pieces' with
      | some v => return v
      | none => malformed (← settle extent') message : Attempt Value)
      fun t t' => Value.MatchesNode t t' := by
  refine (concurs_onlyChild? kind alike).bind fun t t' v? v?' grows grows' found => ?_
  obtain ⟨rfl, rfl⟩ | ⟨v, v', rfl, rfl, same⟩ := found
  · exact (concurs_settle (grows.marked marked) (grows'.marked marked')).bind
      fun _ _ _ _ _ _ _ => concurs_malformed _ _ _
  · exact .pure same

theorem concurs_gathered (r : Rule) {f f' : Value → List Value → Attempt Value}
    (join : ∀ t t' place place' vs vs', List.Forall₂ (Value.MatchesNode t t') vs vs' →
      Concurs t t' (f place vs) (f' place' vs') fun u u' => Value.MatchesNode u u') :
    Concurs s s' (do
      let place ← settle extent
      f place (← operandsOf r place pieces) : Attempt Value)
      (do
      let place ← settle extent'
      f' place (← operandsOf r place pieces') : Attempt Value)
      fun t t' => Value.MatchesNode t t' := by
  refine (concurs_settle marked marked').bind fun t t' place place' grows grows' _ => ?_
  have grown := alike.imp fun _ _ first => first.grow grows grows'
  exact (concurs_operandsOf r place place' grown).bind fun u u' vs vs' _ _ same =>
    join u u' place place' vs vs' same

/-- Rules whose parts became alike become nodes of one kind, or are refused alike. -/
theorem concurs_lowerRule (rule : Rule) :
    Concurs s s' (lowerRule rule pieces extent) (lowerRule rule pieces' extent')
      fun t t' => Value.MatchesNode t t' := by
  cases rule with
  | literal =>
    rw [lowerRule, lowerRule, alike.length_eq]
    exact concurs_single marked marked' alike _ _
  | var => exact concurs_single marked marked' alike _ _
  | group =>
    refine concurs_gathered marked marked' alike .group fun t t' place place' vs vs' same => ?_
    match same with
    | .nil => exact concurs_malformed _ _ _
    | .cons first .nil => exact .pure first
    | .cons _ (.cons _ rest) =>
      simp only [List.length_cons, rest.length_eq]
      exact concurs_malformed _ _ _
  | call =>
    refine concurs_gathered marked marked' alike .call fun t t' place place' vs vs' same => ?_
    match same with
    | .nil => exact concurs_malformed _ _ _
    | .cons first rest => exact concurs_call first rest place place'
  | chain op =>
    exact concurs_gathered marked marked' alike (.chain op) fun t t' place place' vs vs' same =>
      concurs_chain op same place place'
  | ternary =>
    refine concurs_gathered marked marked' alike .ternary fun t t' place place' vs vs' same => ?_
    match same with
    | .nil => exact concurs_malformed _ _ _
    | .cons _ .nil => exact concurs_malformed _ _ _
    | .cons _ (.cons _ .nil) => exact concurs_malformed _ _ _
    | .cons first (.cons second (.cons third .nil)) =>
      exact concurs_ternary first second third place place'
    | .cons _ (.cons _ (.cons _ (.cons _ rest))) =>
      simp only [List.length_cons, rest.length_eq]
      exact concurs_malformed _ _ _

end Rules

/-! ## Visits -/

/-- A visit passes a fault with a message on as a fault with a message, and which one it is depends
on the label, the kind and the message alone. -/
theorem exists_reports_visit (label : String) (kind : FaultKind) (message : String) :
    ∃ kind' message', ∀ {α : Type} {s t : Store} {x : Attempt α} {e : FaultRef} {name : Value}
      (subject : Value), x.runOn s = (.error e, t) → t.Reports e kind message →
        t.text? name = some label →
        ∃ e' u, (visit name subject x).runOn s = (.error e', u) ∧ t.Grows u ∧
          u.Reports e' kind' message' := by
  by_cases broken : kind = .malformed
  · refine ⟨kind, message, fun {α s t x e name} subject runs reports named => ⟨e, t, ?_, .refl t,
      reports⟩⟩
    rw [visit, runOn_tryCatch, runs]
    dsimp only
    rw [Work.runOn_bind_ok (Work.runOn_get t), if_pos (reports.kind_eq.trans broken)]
    rfl
  · refine ⟨.visit, "Error trying to process rule " ++ String.singleton Text.quotation ++
        label ++ String.singleton Text.quotation ++ ":\n\n" ++ message,
      fun {α s t x e name} subject runs reports named => ?_⟩
    have other : ¬(t.fault e).kind = .malformed := by rwa [reports.kind_eq]
    have shown := runOn_plainText (Store.plainText_of_text named)
    have reason := runOn_plainText (reports.shown broken)
    rw [visit, runOn_tryCatch, runs]
    dsimp only
    rw [Work.runOn_bind_ok (Work.runOn_get t), if_neg other, Work.runOn_bind_ok shown,
      Work.runOn_bind_ok reason]
    refine ⟨_, _, rfl, ((Store.Grows.addStamp t).trans (.addStamp _)).trans (.addFault _ _), ?_⟩
    have plain : FaultKind.visit ≠ .missingKey := by decide
    exact Store.reports_addFault _ rfl plain fun _ => rfl

/-- Visits under one name end alike if what is visited does. -/
theorem Concurs.visit {α α' : Type} {x : Attempt α} {x' : Attempt α'}
    {R : Store → Store → α → α' → Prop} (h : Concurs s s' x x' R) {name name' : Value}
    {label : String} (named : s.text? name = some label) (named' : s'.text? name' = some label)
    (subject subject' : Value) :
    Concurs s s' (visit name subject x) (visit name' subject' x') R := by
  cases h with
  | results runs runs' grows grows' related =>
    refine .results ?_ ?_ grows grows' related
    · rw [Attempt.visit, runOn_tryCatch, runs]
    · rw [Attempt.visit, runOn_tryCatch, runs']
  | @faults e e' t t' kind message runs runs' grows grows' reports reports' =>
    obtain ⟨kind', message', visited⟩ := exists_reports_visit label kind message
    obtain ⟨f, u, ends, more, told⟩ :=
      visited subject runs reports ((grows.text? _).trans named)
    obtain ⟨f', u', ends', more', told'⟩ :=
      visited subject' runs' reports' ((grows'.text? _).trans named')
    exact .faults ends ends' (grows.trans more) (grows'.trans more') told told'

end Attempt

end Fallback
