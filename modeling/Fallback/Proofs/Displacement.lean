import Fallback.Proofs.Limit
import Fallback.Proofs.Respect

/-!
Places do not show.

`Store.unplaced` is a store without the places of its nodes and faults, and whatever an evaluation
asks of a store it asks of that: all answers are the same without the places, but for one. The text
of a fault tells where it was found.

`Store.Displaced` relates two stores that are the same without the places. A pairing says which
faults count: these have the same places in both, and nothing that counts leads to another one, so
what counts has the same text in both (`Store.Displaced.namedText`). A fault that an evaluation makes
does not count, and its places may differ from then on.

`Host.IsBlind` is the assumption that a routine and a truth test do the same in worlds that are
related like this, and hand out nothing but what counts.
-/
namespace Fallback

open List (Forall₂)

variable {σ α : Type} {ρ ρ' : Pairing} {s t : Store}

/-! ## Stores without places -/

/-- The node without its place. -/
def Node.unplaced (n : Node) : Node :=
  { n with place := .null }

/-- The fault without its place. -/
def Fault.unplaced (e : Fault) : Fault :=
  { e with place := .null }

namespace Store

/-- The store without the places of its nodes and faults. -/
def unplaced (s : Store) : Store :=
  { s with nodes := s.nodes.map Node.unplaced, faults := s.faults.map Fault.unplaced }

@[simp] theorem node_unplaced (s : Store) (n : NodeRef) :
    s.unplaced.node n = (s.node n).unplaced := by
  simp only [unplaced, node, Array.getElem?_map]
  cases s.nodes[n.index]? <;> rfl

@[simp] theorem fault_unplaced (s : Store) (e : FaultRef) :
    s.unplaced.fault e = (s.fault e).unplaced := by
  simp only [unplaced, fault, Array.getElem?_map]
  cases s.faults[e.index]? <;> rfl

@[simp] theorem form_unplaced (s : Store) (n : NodeRef) : s.unplaced.form n = s.form n := by
  rw [form, node_unplaced]
  rfl

@[simp] theorem size_faults_unplaced (s : Store) : s.unplaced.faults.size = s.faults.size :=
  Array.size_map ..

@[simp] theorem typeName_unplaced (s : Store) (v : Value) :
    s.unplaced.typeName v = s.typeName v := by
  cases v with
  | node n => simp only [typeName, form_unplaced]
  | fault e =>
    simp only [typeName, fault_unplaced]
    rfl
  | _ => rfl

@[simp] theorem hostTypeName_unplaced (s : Store) (v : Value) :
    s.unplaced.hostTypeName v = s.hostTypeName v := by
  have same := s.typeName_unplaced v
  cases v with
  | position p => rfl
  | _ => exact same

@[simp] theorem truth_unplaced (s : Store) (v : Value) : s.unplaced.truth v = s.truth v := by
  cases v <;> rfl

end Store

/-- An attribute with another name than the one of a place is found behind the place. -/
theorem Environment.get?_append_place {a b c : Environment} {name : String}
    (other : name ≠ placeName) (none : ∀ x ∈ b, x.1 = placeName) :
    Environment.get? (a ++ (b ++ c)) name = Environment.get? (a ++ c) name := by
  have skipped : b.find? (fun x => x.1 = name) = .none :=
    List.find?_eq_none.2 fun x hx same =>
      other ((of_decide_eq_true same).symm.trans (none x hx))
  simp only [get?, List.find?_append, skipped, Option.none_or]

namespace Store

/-- Every attribute but the place itself is the same without the places. -/
theorem attribute?_unplaced (s : Store) (v : Value) {name : String} (other : name ≠ placeName) :
    s.unplaced.attribute? v name = s.attribute? v name := by
  cases v with
  | node n =>
    simp only [attribute?, attributes, node_unplaced]
    have skip (c : Node) : c.attributes = c.form.fields ++ ([(placeName, c.place)] ++ c.extras) :=
      rfl
    rw [skip, skip, Environment.get?_append_place other (by simp),
      Environment.get?_append_place other (by simp)]
    rfl
  | fault e =>
    simp only [attribute?, attributes, fault_unplaced]
    have skip (c : Fault) : c.attributes = [(argsName, c.args), (chainedName, c.chained)] ++
        ((if c.kind.hasPlace then [(placeName, c.place)] else []) ++ c.extras) := by
      rw [Fault.attributes]
      split <;> rfl
    have placed (c : Fault) :
        ∀ x ∈ (if c.kind.hasPlace then [(placeName, c.place)] else []), x.1 = placeName := by
      split <;> simp
    rw [skip, skip, Environment.get?_append_place other (placed _),
      Environment.get?_append_place other (placed _)]
    rfl
  | _ => rfl

theorem unplaced_addFault (s : Store) (e : Fault) :
    (s.addFault e).2.unplaced = (s.unplaced.addFault e.unplaced).2 := by
  simp only [addFault, unplaced, Array.map_push]

theorem unplaced_locate (s : Store) (x : FaultRef) (place : Value) :
    (s.locate x place).unplaced = s.unplaced := by
  have faults : (s.locate x place).unplaced.faults = s.unplaced.faults := by
    apply Array.ext_getElem?
    intro i
    simp only [unplaced, locate, setFault, Array.getElem?_map, Array.getElem?_setIfInBounds]
    by_cases same : x.index = i
    · subst same
      rw [if_pos rfl, fault]
      cases h : s.faults[x.index]? with
      | none =>
        have away := Array.getElem?_eq_none_iff.1 h
        rw [if_neg (Nat.not_lt_of_le away)]
      | some e =>
        obtain ⟨there, -⟩ := Array.getElem?_eq_some_iff.1 h
        rw [if_pos there]
        rfl
    · rw [if_neg same]
  simp only [unplaced, locate, setFault] at faults ⊢
  rw [faults]

end Store

/-! ## Texts -/

section Texts

variable (s) {ns : Array Node} (same : ns.map Node.unplaced = s.nodes.map Node.unplaced)
include same

theorem Store.unplaced_withNodes :
    ({ s with nodes := ns } : Store).unplaced = s.unplaced := by
  simp only [unplaced, same]

/-- The places of nodes are not written. -/
theorem Store.render_withNodes (depth : Nat) (within : List Identity) (style : Style) (v : Value) :
    ({ s with nodes := ns } : Store).render depth within style v =
      s.render depth within style v := by
  have bare := s.unplaced_withNodes same
  have attributes (v : Value) {name : String} (other : name ≠ placeName) :
      ({ s with nodes := ns } : Store).attribute? v name = s.attribute? v name := by
    rw [← attribute?_unplaced _ v other, bare, attribute?_unplaced _ v other]
  have types (v : Value) : ({ s with nodes := ns } : Store).typeName v = s.typeName v := by
    rw [← typeName_unplaced, bare, typeName_unplaced]
  have forms (n : NodeRef) : ({ s with nodes := ns } : Store).form n = s.form n := by
    rw [← form_unplaced, bare, form_unplaced]
  have hostTypes (v : Value) :
      ({ s with nodes := ns } : Store).hostTypeName v = s.hostTypeName v := by
    rw [← hostTypeName_unplaced, bare, hostTypeName_unplaced]
  induction depth using Nat.strongRecOn generalizing within style v with
  | ind depth ih =>
    cases depth with
    | zero => rfl
    | succ depth =>
      have part (within : List Identity) (style : Style) :
          ({ s with nodes := ns } : Store).render depth within style =
            s.render depth within style :=
        funext fun v => ih depth (Nat.lt_succ_self _) within style v
      cases v with
      | node n =>
        rcases depth with _ | _ | below
        · rfl
        · rfl
        · have field (within : List Identity) (style : Style) :
              ({ s with nodes := ns } : Store).render below within style =
                s.render below within style :=
            funext fun v => ih below (by omega) within style v
          simp only [Store.render, field, forms, types]
      | outcome o =>
        rcases depth with _ | below
        · rfl
        · have deeper (within : List Identity) (style : Style) :
              ({ s with nodes := ns } : Store).render below within style =
                s.render below within style :=
            funext fun v => ih below (by omega) within style v
          have cell : ({ s with nodes := ns } : Store).outcome o = s.outcome o := rfl
          unfold Store.render
          rcases held : (s.outcome o).result with v | e
          · simp only [cell, held, deeper]
          · simp only [cell, held, deeper, types]
      | fault e =>
        have placed (write : Value → Shown) (c : Fault) :
            ({ s with nodes := ns } : Store).placeText write c = s.placeText write c := by
          have lines := @attributes (c.place) lineName (by decide)
          have columns := @attributes (c.place) columnName (by decide)
          simp only [Store.placeText, Store.line?, Store.column?, Store.said?, lines, columns]
        simp only [Store.render, part, placed]
        rfl
      | callable f =>
        simp only [Store.render, part, hostTypes]
        rfl
      | object o =>
        have label := @attributes (.object o) "label" (by decide)
        simp only [Store.render, part, label]
      | extent | routine | curio => simp only [Store.render, types]
      | _ =>
        simp only [Store.render, part]
        try rfl

end Texts

/-! ## Stores with other places -/

/-- The pairing with one more fault that is hidden in both stores. -/
def Pairing.conceal (ρ : Pairing) (x : FaultRef) : Pairing :=
  (ρ.hide x).hide' x

/-- The fault is hidden in both stores. -/
def Pairing.Conceals (ρ : Pairing) (x : FaultRef) : Prop :=
  ρ.hidden x ∧ ρ.hidden' x

theorem Pairing.le_conceal (ρ : Pairing) (x : FaultRef) : ρ ≤ ρ.conceal x :=
  le_trans (ρ.le_hide x) ((ρ.hide x).le_hide' x)

theorem Pairing.conceals_conceal (ρ : Pairing) (x : FaultRef) : (ρ.conceal x).Conceals x :=
  ⟨.inr rfl, .inr rfl⟩

theorem Pairing.Conceals.mono (le : ρ ≤ ρ') {x : FaultRef} (h : ρ.Conceals x) : ρ'.Conceals x :=
  ⟨le.hidden h.1, le.hidden' h.2⟩

/-- The stores are the same without the places, the faults that count and the nodes that are kept are
the same with them, and what counts leads to nothing else. -/
structure Store.Displaced (kept : NodeRef → Prop) (ρ : Pairing) (s t : Store) : Prop where
  closed : s.Like ρ s
  same : t.unplaced = s.unplaced
  counts {x y : FaultRef} (h : ρ.faults x y) : t.fault y = s.fault y
  places {n : NodeRef} (h : kept n) : t.node n = s.node n

namespace Store.Displaced

variable {kept : NodeRef → Prop} (h : s.Displaced kept ρ t)
include h

/-! ### Answers -/

theorem form (n : NodeRef) : t.form n = s.form n := by
  rw [← form_unplaced, h.same, form_unplaced]

theorem unplaced_fault (x : FaultRef) : (t.fault x).unplaced = (s.fault x).unplaced := by
  rw [← fault_unplaced, h.same, fault_unplaced]

theorem kind (x : FaultRef) : (t.fault x).kind = (s.fault x).kind :=
  (congrArg Fault.kind (h.unplaced_fault x) :)

theorem size_faults : t.faults.size = s.faults.size := by
  rw [← size_faults_unplaced, h.same, size_faults_unplaced]

theorem outcomes : t.outcomes = s.outcomes :=
  (congrArg Store.outcomes h.same :)

/-- The next fault has the same reference in both stores. -/
theorem nextFault : (⟨t.faults.size⟩ : FaultRef) = ⟨s.faults.size⟩ :=
  congrArg FaultRef.mk h.size_faults

theorem nextOutcome : (⟨t.outcomes.size⟩ : OutcomeRef) = ⟨s.outcomes.size⟩ := by
  rw [h.outcomes]

theorem callables : t.callables = s.callables :=
  (congrArg Store.callables h.same :)

theorem nextStamp : t.nextStamp = s.nextStamp :=
  (congrArg Store.nextStamp h.same :)

theorem callable (f : CallableRef) : t.callable f = s.callable f := by
  rw [Store.callable, Store.callable, h.callables]

theorem ownerOf? (r : RoutineRef) : t.ownerOf? r = s.ownerOf? r := by
  rw [Store.ownerOf?, Store.ownerOf?, h.callables]

theorem text? (v : Value) : t.text? v = s.text? v := by
  have tokens : t.tokens = s.tokens := (congrArg Store.tokens h.same :)
  cases v with
  | token r => rw [Store.text?, Store.text?, token, token, tokens]
  | _ => rfl

theorem typeName (v : Value) : t.typeName v = s.typeName v := by
  rw [← typeName_unplaced, h.same, typeName_unplaced]

theorem hostTypeName (v : Value) : t.hostTypeName v = s.hostTypeName v := by
  rw [← hostTypeName_unplaced, h.same, hostTypeName_unplaced]

theorem truth (v : Value) : t.truth v = s.truth v := by
  rw [← truth_unplaced, h.same, truth_unplaced]

theorem attribute? (v : Value) {name : String} (other : name ≠ placeName) :
    t.attribute? v name = s.attribute? v name := by
  rw [← attribute?_unplaced _ _ other, h.same, attribute?_unplaced _ _ other]

/-- With the nodes of the first store, the second is like it. -/
theorem like_withFaults : s.Like ρ { s with faults := t.faults } := by
  have faults : ({ s with faults := s.faults } : Store).FaultsLike ρ
      { s with faults := t.faults } := by
    refine ⟨fun paired => ?_, fun {x y} paired => ?_, h.closed.faults.unique,
      h.closed.faults.hidden, fun hidden => ?_⟩
    · exact ⟨(h.closed.faults.made paired).1, h.size_faults ▸ (h.closed.faults.made paired).2⟩
    · have same : ({ s with faults := t.faults } : Store).fault y = s.fault y := h.counts paired
      rw [same]
      exact h.closed.faults.like paired
    · obtain ⟨made, alone⟩ := h.closed.faults.hidden' hidden
      exact ⟨h.size_faults ▸ made, alone⟩
  exact h.closed.withFaults (le_refl ρ) rfl faults

/-- What counts has the same text in both stores. -/
theorem namedText {v : Value} (counts : v.Like ρ v) : t.namedText v = s.namedText v := by
  have nodes : t.nodes.map Node.unplaced = s.nodes.map Node.unplaced :=
    congrArg Store.nodes h.same
  have rest : t = { s with nodes := t.nodes, faults := t.faults } := by
    have same := h.same
    cases s
    cases t
    simp only [Store.unplaced, Store.mk.injEq] at same
    obtain ⟨-, -, rfl, rfl, rfl, rfl, rfl, rfl, rfl, rfl, rfl, rfl, rfl⟩ := same
    rfl
  have texts : t.plainText v = ({ s with faults := t.faults } : Store).plainText v := by
    rw [rest]
    exact Store.render_withNodes { s with faults := t.faults } nodes _ _ _ _
  rw [Store.namedText, Store.namedText, h.typeName, texts, ← h.like_withFaults.plainText counts]

/-! ### Changes -/

/-- A fault that is made in both stores with a place in each may be hidden. -/
theorem addHidden {e f : Fault} (same : f.unplaced = e.unplaced) :
    (s.addFault e).2.Displaced kept (ρ.conceal ⟨s.faults.size⟩) (t.addFault f).2 := by
  refine ⟨(h.closed.hide e).hide' e, ?_, fun {x y} paired => ?_, h.places⟩
  · rw [unplaced_addFault, unplaced_addFault, same, h.same]
  · have made := (h.closed.faults.made paired).2
    rw [fault_addFault_of_lt _ (h.size_faults ▸ made), fault_addFault_of_lt _ made]
    exact h.counts paired

/-- A fault that is made in both stores may count, if it leads to nothing but what counts. -/
theorem addFault {e : Fault} (like : e.Like ρ e) :
    (s.addFault e).2.Displaced kept (ρ.pair ⟨s.faults.size⟩ ⟨s.faults.size⟩) (t.addFault e).2 := by
  refine ⟨h.closed.addFault like, ?_, fun {x y} paired => ?_, h.places⟩
  · rw [unplaced_addFault, unplaced_addFault, h.same]
  · obtain old | ⟨rfl, rfl⟩ := paired
    · have made := (h.closed.faults.made old).2
      rw [fault_addFault_of_lt _ (h.size_faults ▸ made), fault_addFault_of_lt _ made]
      exact h.counts old
    · have first := fault_addFault_self s e
      have second := fault_addFault_self t e
      rw [Store.addFault, h.size_faults] at second
      rw [Store.addFault] at first
      rw [Store.addFault, Store.addFault, first, second]

theorem addOutcome (r : Result) : (s.addOutcome r).2.Displaced kept ρ (t.addOutcome r).2 := by
  refine ⟨h.closed.addOutcome r r, ?_, h.counts, h.places⟩
  exact congrArg (fun u : Store => (u.addOutcome r).2) h.same

theorem addStamp : s.addStamp.2.Displaced kept ρ t.addStamp.2 := by
  refine ⟨h.closed.addStamp, ?_, h.counts, h.places⟩
  exact congrArg (fun u : Store => u.addStamp.2) h.same

theorem addItem (stamp : Nat) {v : Value} (counts : v.Like ρ v) :
    (s.addItem stamp v).Displaced kept ρ (t.addItem stamp v) := by
  refine ⟨h.closed.addItem stamp counts, ?_, h.counts, h.places⟩
  exact congrArg (fun u : Store => u.addItem stamp v) h.same

theorem addInvocation (f : CallableRef) {vs : List Value} (counts : Value.AllLike ρ vs vs) :
    (s.addInvocation f vs).Displaced kept ρ (t.addInvocation f vs) := by
  refine ⟨h.closed.addInvocation f counts, ?_, h.counts, h.places⟩
  exact congrArg (fun u : Store => u.addInvocation f vs) h.same

/-- What is hidden may be given any place in the first store. -/
theorem locate_left {x : FaultRef} (hidden : ρ.Conceals x) (place : Value) :
    (s.locate x place).Displaced kept ρ t := by
  refine ⟨(h.closed.locate_hidden hidden.1 place).locate_hidden' hidden.2 place, ?_,
    fun {y z} paired => ?_, h.places⟩
  · rw [unplaced_locate, h.same]
  · have other : z ≠ x := fun same => (h.closed.faults.hidden' hidden.2).2 y (same ▸ paired)
    rw [fault_locate_of_ne _ _ other]
    exact h.counts paired

/-- What is hidden may be given any place in the second store. -/
theorem locate_right {x : FaultRef} (hidden : ρ.Conceals x) (place : Value) :
    s.Displaced kept ρ (t.locate x place) := by
  refine ⟨h.closed, ?_, fun {y z} paired => ?_, h.places⟩
  · rw [unplaced_locate, h.same]
  · have other : z ≠ x := fun same => (h.closed.faults.hidden' hidden.2).2 y (same ▸ paired)
    rw [fault_locate_of_ne _ _ other]
    exact h.counts paired

end Store.Displaced

/-! ## Worlds and hosts -/

/-- The host may look at the place of a node that stands for itself. -/
def Likeness.Keeps (L : Likeness σ) (n : NodeRef) : Prop :=
  L.nodes n n

/-- The worlds are the same without the places, with those that the host may look at, and what counts
leads to nothing but what counts. -/
structure World.Displaced (L : Likeness σ) (ρ : Pairing) (w w' : World σ) : Prop where
  store : w.store.Displaced L.Keeps ρ w'.store
  trace : w'.trace = w.trace
  log : w'.log = w.log
  host : w'.host = w.host
  states : L.states ρ w.host w.host

variable {L : Likeness σ}

theorem World.Displaced.withStore {w w' : World σ} (h : w.Displaced L ρ w') (le : ρ ≤ ρ')
    (stores : s.Displaced L.Keeps ρ' t) :
    World.Displaced L ρ' { w with store := s } { w' with store := t } :=
  ⟨stores, h.trace, h.log, h.host, L.mono le h.states⟩

/-- Two ends of some work are the same: the same result or the same fault, of which something is
said, and under a pairing that says no less, related states. -/
def Coincide {S : Type} (related : Pairing → S → S → Prop) (ρ : Pairing)
    (R : Pairing → Except FaultRef α → Prop) (p p' : Except FaultRef α × S) : Prop :=
  p'.1 = p.1 ∧ ∃ ρ₁, ρ ≤ ρ₁ ∧ related ρ₁ p.2 p'.2 ∧ R ρ₁ p.1

/-- Nothing but what counts is reached from the value. -/
abbrev Pairing.Knows (ρ : Pairing) (v : Value) : Prop :=
  v.Like ρ v

/-- A result is as a predicate says, and a fault counts. -/
def Pairing.Admits (P : Pairing → α → Prop) (ρ : Pairing) : Except FaultRef α → Prop
  | .ok a => P ρ a
  | .error e => ρ.faults e e

/-- The host does the same in worlds that differ in places alone, and hands out nothing but what
counts. -/
structure Host.IsBlind (host : Host σ) (L : Likeness σ) : Prop where
  run {ρ : Pairing} {w w' : World σ} (displaced : w.Displaced L ρ w') (r : RoutineRef)
    {args : List Value} (counts : Value.AllLike ρ args args) :
    Coincide (World.Displaced L) ρ (Pairing.Admits Pairing.Knows)
      (host.run r args w) (host.run r args w')
  truth {ρ : Pairing} {w w' : World σ} (displaced : w.Displaced L ρ w') (o : ObjectRef) :
    Coincide (World.Displaced L) ρ (Pairing.Admits fun _ _ => True)
      (host.truth o w) (host.truth o w')

end Fallback
