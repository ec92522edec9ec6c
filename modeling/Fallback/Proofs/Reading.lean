import Fallback.Proofs.Construction
import Fallback.Proofs.Position
import Fallback.Proofs.Phrase

/-!
Parse trees and expressions in the store.

`Phrase.Reads` says that a value of the store is a parse tree, and which one; `Blueprint.Shows` says
that a node of the store is an expression with its positions. Lowering only adds to the store, and
what it adds is neither a token nor an extent, so a tree reads the same all the time
(`Store.Grows`), and a node stays the expression that it is.

The only thing that is asked of a tree is that no host object has to be asked whether an extent is
blank, and that the value of a token is its own text.
-/
namespace Fallback

/-- The value is a part of the source text: a token, or the extent of a rule, which is null if the
rule has none. -/
def Value.isSource : Value → Bool
  | .token _ | .extent _ | .null => true
  | _ => false

/-- The value means something in a parse tree: it is a rule, a token or a node. -/
def Value.isParsed : Value → Bool
  | .tree _ | .token _ | .node _ => true
  | _ => false

namespace Store

/-! ## What lowering leaves alone -/

/-- What lasts has lasted, positions are still what they were, and the interpreter is the same. -/
structure KeepsPlaces (s t : Store) : Prop where
  le : s ≤ t
  interpreter : t.interpreter = s.interpreter
  position {p : PositionRef} (h : p.index < s.positions.size) :
    p.index < t.positions.size ∧ t.position p = s.position p

/-- Nothing is made but nodes, faults, positions and stamps. -/
structure Grows (s t : Store) : Prop extends s.KeepsPlaces t where
  tokens : t.tokens = s.tokens
  extents : t.extents = s.extents
  additions : t.additions = s.additions
  outcomes : t.outcomes = s.outcomes
  objects : t.objects = s.objects

namespace KeepsPlaces

variable {s t u : Store}

theorem refl (s : Store) : s.KeepsPlaces s :=
  ⟨le_refl s, rfl, fun h => ⟨h, rfl⟩⟩

theorem trans (h : s.KeepsPlaces t) (k : t.KeepsPlaces u) : s.KeepsPlaces u := by
  refine ⟨le_trans h.le k.le, k.interpreter.trans h.interpreter, fun hp => ?_⟩
  obtain ⟨there, same⟩ := h.position hp
  exact ⟨(k.position there).1, (k.position there).2.trans same⟩

/-- Positions are still what they were where there are the same positions. -/
theorem of_eq (le : s ≤ t) (same : t.positions = s.positions)
    (interpreter : t.interpreter = s.interpreter) : s.KeepsPlaces t :=
  ⟨le, interpreter, fun h => ⟨same ▸ h, by simp only [Store.position, same]⟩⟩

end KeepsPlaces

namespace Grows

variable {s t u : Store}

theorem refl (s : Store) : s.Grows s :=
  ⟨.refl s, rfl, rfl, rfl, rfl, rfl⟩

theorem trans (h : s.Grows t) (k : t.Grows u) : s.Grows u :=
  ⟨h.toKeepsPlaces.trans k.toKeepsPlaces, k.tokens.trans h.tokens, k.extents.trans h.extents,
    k.additions.trans h.additions, k.outcomes.trans h.outcomes, k.objects.trans h.objects⟩

theorem addStamp (s : Store) : s.Grows s.addStamp.2 :=
  ⟨.of_eq Change.stamp.le rfl rfl, rfl, rfl, rfl, rfl, rfl⟩

theorem addNode (s : Store) (n : Node) : s.Grows (s.addNode n).2 :=
  ⟨.of_eq (s.le_addNode n) rfl rfl, rfl, rfl, rfl, rfl, rfl⟩

theorem addFault (s : Store) (e : Fault) : s.Grows (s.addFault e).2 :=
  ⟨.of_eq (Change.fault e).le rfl rfl, rfl, rfl, rfl, rfl, rfl⟩

theorem addPosition (s : Store) (a : Attributes) : s.Grows (s.addPosition a).2 := by
  refine ⟨⟨le_of_eq rfl rfl rfl, rfl, fun {p} h => ⟨?_, ?_⟩⟩, rfl, rfl, rfl, rfl, rfl⟩
  · show p.index < (s.positions.push a).size
    rw [Array.size_push]
    exact Nat.lt_succ_of_lt h
  · simp [Store.addPosition, Store.position, Array.getElem?_push, Nat.ne_of_lt h]

/-- A message that is made leaves a fault and nothing else. -/
theorem faultAt (s : Store) (kind : FaultKind) (place : Value) (message : String) :
    s.Grows (s.addStamp.2.addStamp.2.addFault (Attempt.faultAt s kind place message)).2 :=
  ((addStamp s).trans (addStamp _)).trans (addFault _ _)

variable (h : s.Grows t)
include h

theorem token (r : TokenRef) : t.token r = s.token r := by
  rw [Store.token, Store.token, h.tokens]

theorem text? (v : Value) : t.text? v = s.text? v := by
  cases v with
  | token r => exact congrArg (fun c : Token => some c.text) (h.token r)
  | _ => rfl

theorem items? (v : Value) : t.items? v = s.items? v := by
  cases v with
  | list items stamp => simp [Store.items?, listItems?, addedTo, h.additions]
  | token r => simp only [Store.items?, listItems?, h.text?]
  | _ => rfl

theorem truth (v : Value) : t.truth v = s.truth v := by
  have length : t.length? v = s.length? v := congrArg (fun x => x.map List.length) (h.items? v)
  cases v with
  | null | bool | int | float => rfl
  | _ => simp only [Store.truth, length]

end Grows

/-! ## Marks and places -/

/-- The part of the source text has the marks, and no host object has to be asked whether it is
blank. -/
structure Marked (s : Store) (v : Value) (mark : Mark) : Prop where
  source : v.isSource = true
  told : ∀ b, s.attribute? v blankName = some b → b.isHosted = false
  marks : (if (s.attribute? v blankName).any s.truth then none else s.mark? v) = mark

/-- The place is a position with the marks, or null if there are none. -/
def Places (s : Store) : Mark → Value → Prop
  | none, place => place = .null
  | some marks, place =>
    ∃ p, place = .position p ∧ p.index < s.positions.size ∧ s.position p = marks

/-- The node has a form and the place of the marks, and nothing else. -/
def Holds (s : Store) (n : NodeRef) (form : Form) (mark : Mark) : Prop :=
  n.index < s.nodes.size ∧ ∃ place, s.node n = ⟨form, place, []⟩ ∧ s.Places mark place

/-- A rule without an extent has no marks. -/
theorem marked_null (s : Store) : s.Marked .null none :=
  ⟨rfl, fun _ h => (Option.some_ne_none _ h.symm).elim, rfl⟩

/-- A source that says whether it is blank has no marks, or those that it shows. -/
theorem marked_of_blank {s : Store} {v : Value} {b : Bool} (source : v.isSource = true)
    (told : s.attribute? v blankName = some (.bool b)) :
    s.Marked v (if b then none else s.mark? v) := by
  refine ⟨source, ?_, ?_⟩
  · rw [told]
    rintro _ ⟨⟩
    rfl
  · rw [told]
    rfl

theorem marked_token (s : Store) (r : TokenRef) : s.Marked (.token r) (s.mark? (.token r)) := by
  have unset : s.attribute? (.token r) blankName = none := rfl
  refine ⟨rfl, ?_, ?_⟩
  · rw [unset]
    exact nofun
  · rw [unset]
    rfl

namespace Grows

variable {s t : Store} (h : s.Grows t)
include h

theorem attributes {v : Value} (source : v.isSource = true) : t.attributes v = s.attributes v := by
  cases v with
  | token r => exact congrArg Token.attributes (h.token r)
  | extent x => simp only [Store.attributes, extent, h.extents]
  | null => rfl
  | _ => cases source

theorem attribute? {v : Value} (source : v.isSource = true) (name : String) :
    t.attribute? v name = s.attribute? v name := by
  rw [Store.attribute?, Store.attribute?, h.attributes source]

theorem mark? {v : Value} (source : v.isSource = true) : t.mark? v = s.mark? v := by
  simp only [Store.mark?, line?, said?, h.attribute? source]

theorem marked {v : Value} {mark : Mark} (marked : s.Marked v mark) : t.Marked v mark := by
  refine ⟨marked.source, ?_, ?_⟩
  · rw [h.attribute? marked.source]
    exact marked.told
  · have asked : t.truth = s.truth := funext h.truth
    rw [← marked.marks, h.attribute? marked.source, h.mark? marked.source, asked]

end Grows

namespace KeepsPlaces

variable {s t : Store} (h : s.KeepsPlaces t)
include h

theorem places {mark : Mark} {place : Value} (places : s.Places mark place) :
    t.Places mark place := by
  cases mark with
  | none => exact places
  | some marks =>
    obtain ⟨p, rfl, there, same⟩ := places
    exact ⟨p, rfl, (h.position there).1, (h.position there).2.trans same⟩

theorem holds {n : NodeRef} {form : Form} {mark : Mark} (holds : s.Holds n form mark) :
    t.Holds n form mark := by
  obtain ⟨there, place, same, places⟩ := holds
  obtain ⟨there', same'⟩ := h.le.node there
  exact ⟨there', place, same'.trans same, h.places places⟩

end KeepsPlaces

end Store

/-! ## Trees that are read, nodes that are shown -/

namespace Phrase

mutual

/-- The value is the parse tree. -/
def Reads (s : Store) : Phrase → Value → Prop
  | .rule label mark ps, v => ∃ r vs, v = .tree r ∧ s.text? (s.tree r).label = some label ∧
      s.Marked (s.tree r).extent mark ∧ s.items? (s.tree r).children = some vs ∧ ReadsAll s ps vs
  | .token kind text mark, v => ∃ r stamp, v = .token r ∧ s.text? (s.token r).kind = some kind ∧
      (s.token r).text = text ∧ (s.token r).value = .str text stamp ∧ s.mark? (.token r) = mark
  | .node n kind, v => v = .node n ∧ n.index < s.nodes.size ∧ (s.form n).kind = kind
  | .other w, v => v = w ∧ v.isParsed = false

/-- The values are the parse trees, one for each. -/
def ReadsAll (s : Store) : List Phrase → List Value → Prop
  | [], [] => True
  | p :: ps, v :: vs => p.Reads s v ∧ ReadsAll s ps vs
  | _, _ => False

end

end Phrase

/-- The value is the constant. -/
def Constant.Is : Constant → Value → Prop
  | .null, v => v = .null
  | .truth b, v => v = .bool b
  | .number (.integer n), v => ∃ stamp, v = .int n stamp
  | .number (.float (.number x)), v => ∃ stamp, v = .float x stamp
  | .number (.float .notANumber), v => ∃ stamp, v = .nan stamp
  | .text t, v => ∃ stamp, v = .str t stamp

namespace Blueprint

mutual

/-- The node is the expression, with a position for every mark. -/
def Shows (s : Store) : Blueprint → NodeRef → Prop
  | .literal mark c, n => ∃ v, s.Holds n (.literal v) mark ∧ c.Is v
  | .reference mark name, n => ∃ stamp, s.Holds n (.reference (.str name stamp)) mark
  | .call mark callee args, n => ∃ c items stamp,
      s.Holds n (.call (.node c) (.tuple items stamp)) mark ∧ callee.Shows s c ∧
        ShowAll s args items
  | .fallback mark op lhs rhs, n => ∃ l r, s.Holds n (.fallback op (.node l) (.node r)) mark ∧
      lhs.Shows s l ∧ rhs.Shows s r
  | .ternary mark condition thenBranch elseBranch, n => ∃ c t e,
      s.Holds n (.ternary (.node c) (.node t) (.node e)) mark ∧
        condition.Shows s c ∧ thenBranch.Shows s t ∧ elseBranch.Shows s e
  | .node m kind, n => n = m ∧ n.index < s.nodes.size ∧ (s.form n).kind = kind

/-- The values are nodes that are the expressions, one for each. -/
def ShowAll (s : Store) : List Blueprint → List Value → Prop
  | [], [] => True
  | b :: bs, v :: vs => (∃ n, v = .node n ∧ b.Shows s n) ∧ ShowAll s bs vs
  | _, _ => False

end

variable {s t : Store}

mutual

theorem Shows.mono (h : s.KeepsPlaces t) : ∀ {b : Blueprint} {n : NodeRef},
    b.Shows s n → b.Shows t n
  | .literal _ _, _, ⟨v, holds, is⟩ => ⟨v, h.holds holds, is⟩
  | .reference _ _, _, ⟨stamp, holds⟩ => ⟨stamp, h.holds holds⟩
  | .call _ _ _, _, ⟨c, items, stamp, holds, callee, args⟩ =>
    ⟨c, items, stamp, h.holds holds, callee.mono h, ShowAll.mono h args⟩
  | .fallback _ _ _ _, _, ⟨l, r, holds, lhs, rhs⟩ =>
    ⟨l, r, h.holds holds, lhs.mono h, rhs.mono h⟩
  | .ternary _ _ _ _, _, ⟨c, t, e, holds, condition, thenBranch, elseBranch⟩ =>
    ⟨c, t, e, h.holds holds, condition.mono h, thenBranch.mono h, elseBranch.mono h⟩
  | .node _ _, _, ⟨same, there, kind⟩ =>
    ⟨same, (h.le.node there).1, by rw [Store.form, (h.le.node there).2]; exact kind⟩

theorem ShowAll.mono (h : s.KeepsPlaces t) : ∀ {bs : List Blueprint} {vs : List Value},
    ShowAll s bs vs → ShowAll t bs vs
  | [], [], _ => trivial
  | _ :: _, _ :: _, ⟨⟨n, same, shows⟩, rest⟩ => ⟨⟨n, same, shows.mono h⟩, ShowAll.mono h rest⟩

end

theorem Shows.grow (h : s.Grows t) {b : Blueprint} {n : NodeRef} (shows : b.Shows s n) :
    b.Shows t n :=
  shows.mono h.toKeepsPlaces

theorem ShowAll.grow (h : s.Grows t) {bs : List Blueprint} {vs : List Value}
    (all : ShowAll s bs vs) : ShowAll t bs vs :=
  all.mono h.toKeepsPlaces

theorem ShowAll.isNode : ∀ {bs : List Blueprint} {vs : List Value}, ShowAll s bs vs →
    ∀ v ∈ vs, v.isNode = true
  | [], [], _ => nofun
  | _ :: _, _ :: _, ⟨⟨_, same, _⟩, rest⟩ => List.forall_mem_cons.2 ⟨same ▸ rfl, rest.isNode⟩

theorem ShowAll.eq_nil {vs : List Value} (all : ShowAll s [] vs) : vs = [] := by
  cases vs with
  | nil => rfl
  | cons v vs => exact all.elim

theorem ShowAll.exists_cons {b : Blueprint} {bs : List Blueprint} {vs : List Value}
    (all : ShowAll s (b :: bs) vs) :
    ∃ n more, vs = .node n :: more ∧ b.Shows s n ∧ ShowAll s bs more := by
  cases vs with
  | nil => exact all.elim
  | cons v vs =>
    obtain ⟨⟨n, rfl, shows⟩, rest⟩ := all
    exact ⟨n, vs, rfl, shows, rest⟩

/-- The form of a node that is an expression, unless it was made before. -/
theorem Shows.form {b : Blueprint} {n : NodeRef} (h : b.Shows s n) :
    match b with
    | .literal _ c => ∃ v, s.form n = .literal v ∧ c.Is v
    | .reference _ name => ∃ stamp, s.form n = .reference (.str name stamp)
    | .call _ callee args => ∃ c items stamp, s.form n = .call (.node c) (.tuple items stamp) ∧
        callee.Shows s c ∧ ShowAll s args items
    | .fallback _ op lhs rhs => ∃ l r, s.form n = .fallback op (.node l) (.node r) ∧
        lhs.Shows s l ∧ rhs.Shows s r
    | .ternary _ condition thenBranch elseBranch => ∃ c t e,
        s.form n = .ternary (.node c) (.node t) (.node e) ∧ condition.Shows s c ∧
          thenBranch.Shows s t ∧ elseBranch.Shows s e
    | .node _ _ => True := by
  cases b with
  | literal mark c =>
    obtain ⟨v, ⟨-, place, same, -⟩, is⟩ := h
    exact ⟨v, congrArg Node.form same, is⟩
  | reference mark name =>
    obtain ⟨stamp, -, place, same, -⟩ := h
    exact ⟨stamp, congrArg Node.form same⟩
  | call mark callee args =>
    obtain ⟨c, items, stamp, ⟨-, place, same, -⟩, shows⟩ := h
    exact ⟨c, items, stamp, congrArg Node.form same, shows⟩
  | fallback mark op lhs rhs =>
    obtain ⟨l, r, ⟨-, place, same, -⟩, shows⟩ := h
    exact ⟨l, r, congrArg Node.form same, shows⟩
  | ternary mark condition thenBranch elseBranch =>
    obtain ⟨c, t, e, ⟨-, place, same, -⟩, shows⟩ := h
    exact ⟨c, t, e, congrArg Node.form same, shows⟩
  | node m kind => trivial

/-- The kind of an expression is that of the node that is it. -/
theorem Shows.kind {b : Blueprint} {n : NodeRef} (h : b.Shows s n) : (s.form n).kind = b.kind := by
  have form := h.form
  cases b with
  | literal mark c =>
    obtain ⟨v, same, -⟩ := form
    rw [same]
    rfl
  | reference mark name =>
    obtain ⟨stamp, same⟩ := form
    rw [same]
    rfl
  | call mark callee args =>
    obtain ⟨c, items, stamp, same, -⟩ := form
    rw [same]
    rfl
  | fallback mark op lhs rhs =>
    obtain ⟨l, r, same, -⟩ := form
    rw [same]
    rfl
  | ternary mark condition thenBranch elseBranch =>
    obtain ⟨c, t, e, same, -⟩ := form
    rw [same]
    rfl
  | node m kind => exact h.2.2

/-- A node that is an expression was made. -/
theorem Shows.made {b : Blueprint} {n : NodeRef} (h : b.Shows s n) : n.index < s.nodes.size := by
  cases b with
  | literal mark c => exact h.choose_spec.1.1
  | reference mark name => exact h.choose_spec.1
  | call mark callee args => exact h.choose_spec.choose_spec.choose_spec.1.1
  | fallback mark op lhs rhs => exact h.choose_spec.choose_spec.1.1
  | ternary mark condition thenBranch elseBranch =>
    exact h.choose_spec.choose_spec.choose_spec.1.1
  | node m kind => exact h.2.1

theorem ShowAll.exists_of_mem : ∀ {bs : List Blueprint} {vs : List Value}, ShowAll s bs vs →
    ∀ v ∈ vs, ∃ c ∈ bs, ∃ m, v = .node m ∧ c.Shows s m
  | [], [], _ => nofun
  | b :: bs, w :: vs, ⟨⟨n, same, shows⟩, rest⟩ => by
    intro v hv
    obtain rfl | hv := List.mem_cons.1 hv
    · exact ⟨b, List.mem_cons_self .., n, same, shows⟩
    · obtain ⟨c, hc, found⟩ := ShowAll.exists_of_mem rest v hv
      exact ⟨c, List.mem_cons_of_mem _ hc, found⟩

/-- The operands of a node that is an expression are the expressions right below it. -/
theorem Shows.exists_of_mem_operands {b : Blueprint} {n : NodeRef} (h : b.Shows s n)
    (fresh : ∀ m kind, b ≠ .node m kind) {v : Value} (hv : v ∈ (s.form n).operands) :
    ∃ c ∈ b.operands, ∃ m, v = .node m ∧ c.Shows s m := by
  have form := h.form
  cases b with
  | literal mark c =>
    obtain ⟨w, same, -⟩ := form
    rw [same] at hv
    cases hv
  | reference mark name =>
    obtain ⟨stamp, same⟩ := form
    rw [same] at hv
    cases hv
  | call mark callee args =>
    obtain ⟨c, items, stamp, same, first, rest⟩ := form
    rw [same] at hv
    have all : ShowAll s (callee :: args) (.node c :: items) := ⟨⟨c, rfl, first⟩, rest⟩
    exact all.exists_of_mem v hv
  | fallback mark op lhs rhs =>
    obtain ⟨l, r, same, left, right⟩ := form
    rw [same] at hv
    have all : ShowAll s [lhs, rhs] [.node l, .node r] := ⟨⟨l, rfl, left⟩, ⟨r, rfl, right⟩, trivial⟩
    exact all.exists_of_mem v hv
  | ternary mark condition thenBranch elseBranch =>
    obtain ⟨c, t, e, same, first, second, third⟩ := form
    rw [same] at hv
    have all : ShowAll s [condition, thenBranch, elseBranch] [.node c, .node t, .node e] :=
      ⟨⟨c, rfl, first⟩, ⟨t, rfl, second⟩, ⟨e, rfl, third⟩, trivial⟩
    exact all.exists_of_mem v hv
  | node m kind => exact absurd rfl (fresh m kind)

/-- The value is a node that is the expression. -/
def IsAt (s : Store) (b : Blueprint) (v : Value) : Prop :=
  ∃ n, v = .node n ∧ b.Shows s n

end Blueprint

end Fallback
