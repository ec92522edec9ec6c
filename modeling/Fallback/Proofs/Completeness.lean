import Fallback.Proofs.Construction
import Fallback.Proofs.Spelling

/-!
Lowering is complete.

Whatever can be built out of names, operators, calls, choices and plain literals is what some parse
tree is lowered to: `exists_lowered_of_isBuilt`. The tree is the one that `Blueprint.phrase` writes,
put into a store that has everything else already. A text survives whatever it is, since only the
outermost quotes are taken off again; an integer survives if it can be shown at all.

The recursion of the transformation is the only limit, wherever the interpreter has it. It is about
the nesting of the expression and not about its height, because chains count as one rule; a single
name or literal takes two levels, since a token on its own is lowered like a group of it. Beyond the
limit there is nothing to be done: no tree of the grammar whatsoever is lowered to such a node.
-/
namespace Fallback

open Attempt
open Relation (ReflTransGen)

/-! ## New trees in a store -/

namespace Store

/-- Nothing is made but tokens, rules and stamps, and nothing is changed. -/
structure Extends (s t : Store) : Prop extends s.KeepsPlaces t where
  token {r : TokenRef} (h : r.index < s.tokens.size) :
    r.index < t.tokens.size ∧ t.token r = s.token r
  tree {r : TreeRef} (h : r.index < s.trees.size) : r.index < t.trees.size ∧ t.tree r = s.tree r
  additions : t.additions = s.additions
  nextStamp : s.nextStamp ≤ t.nextStamp

namespace Extends

variable {s t u : Store}

theorem refl (s : Store) : s.Extends s :=
  ⟨.refl s, fun h => ⟨h, rfl⟩, fun h => ⟨h, rfl⟩, rfl, Nat.le_refl _⟩

theorem trans (h : s.Extends t) (k : t.Extends u) : s.Extends u := by
  refine ⟨h.toKeepsPlaces.trans k.toKeepsPlaces, fun hr => ?_, fun hr => ?_,
    k.additions.trans h.additions, Nat.le_trans h.nextStamp k.nextStamp⟩
  · obtain ⟨there, same⟩ := h.token hr
    exact ⟨(k.token there).1, (k.token there).2.trans same⟩
  · obtain ⟨there, same⟩ := h.tree hr
    exact ⟨(k.tree there).1, (k.tree there).2.trans same⟩

theorem addStamp (s : Store) : s.Extends s.addStamp.2 :=
  ⟨.of_eq Change.stamp.le rfl rfl, fun h => ⟨h, rfl⟩, fun h => ⟨h, rfl⟩, rfl, Nat.le_succ _⟩

theorem addToken (s : Store) (c : Token) : s.Extends (s.addToken c).2 := by
  have kept {r : TokenRef} (h : r.index < s.tokens.size) :
      r.index < (s.addToken c).2.tokens.size ∧ (s.addToken c).2.token r = s.token r := by
    refine ⟨?_, by simp [Store.addToken, Store.token, Array.getElem?_push, Nat.ne_of_lt h]⟩
    show r.index < (s.tokens.push c).size
    rw [Array.size_push]
    exact Nat.lt_succ_of_lt h
  refine ⟨.of_eq ⟨fun h => ⟨h, rfl⟩, fun h => ⟨h, rfl⟩, fun h => ?_⟩ rfl rfl, kept,
    fun h => ⟨h, rfl⟩, rfl, Nat.le_refl _⟩
  exact ⟨(kept h).1, congrArg Token.text (kept h).2⟩

theorem addTree (s : Store) (c : Tree) : s.Extends (s.addTree c).2 := by
  refine ⟨.of_eq (le_of_eq rfl rfl rfl) rfl rfl, fun h => ⟨h, rfl⟩, fun {r} h => ⟨?_, ?_⟩, rfl,
    Nat.le_refl _⟩
  · show r.index < (s.trees.push c).size
    rw [Array.size_push]
    exact Nat.lt_succ_of_lt h
  · simp [Store.addTree, Store.tree, Array.getElem?_push, Nat.ne_of_lt h]

theorem isOrderly (h : s.Extends t) (orderly : s.IsOrderly) : t.IsOrderly := by
  intro a ha
  rw [h.additions] at ha
  exact Nat.lt_of_lt_of_le (orderly a ha) h.nextStamp

end Extends

end Store

namespace Phrase

/-- A token without marks is put into a store. -/
theorem exists_token (s : Store) (kind text : String) :
    ∃ v t, s.Extends t ∧ ∀ u, t.Extends u → (Phrase.token kind text none).Reads u v := by
  let cell : Token := ⟨text, .str kind s.nextStamp, .str text (s.nextStamp + 1), []⟩
  let t := (s.addStamp.2.addStamp.2.addToken cell).2
  have made : (⟨s.tokens.size⟩ : TokenRef).index < t.tokens.size ∧
      t.token ⟨s.tokens.size⟩ = cell := by
    simp [t, Store.addToken, Store.addStamp, Store.token]
  refine ⟨.token ⟨s.tokens.size⟩, t,
    ((Store.Extends.addStamp s).trans (.addStamp _)).trans (.addToken _ cell), fun u later => ?_⟩
  have same : u.token ⟨s.tokens.size⟩ = cell := (later.token made.1).2.trans made.2
  refine ⟨⟨s.tokens.size⟩, s.nextStamp + 1, rfl, ?_⟩
  simp only [Store.mark?, Store.line?, Store.said?, Store.attribute?, Store.attributes, same]
  exact ⟨rfl, rfl, rfl, rfl⟩

/-- A rule without marks is put into a store that has its parts already. -/
theorem exists_rule {s : Store} {ps : List Phrase} {vs : List Value} (orderly : s.IsOrderly)
    (stand : ∀ u, s.Extends u → ReadsAll u ps vs) (label : String) :
    ∃ v t, s.Extends t ∧ ∀ u, t.Extends u → (Phrase.rule label none ps).Reads u v := by
  let cell : Tree := ⟨.str label s.nextStamp, .list vs (s.nextStamp + 1), .null, []⟩
  let t := (s.addStamp.2.addStamp.2.addTree cell).2
  have extended : s.Extends t :=
    ((Store.Extends.addStamp s).trans (.addStamp _)).trans (.addTree _ cell)
  have made : (⟨s.trees.size⟩ : TreeRef).index < t.trees.size ∧ t.tree ⟨s.trees.size⟩ = cell := by
    simp [t, Store.addTree, Store.addStamp, Store.tree]
  refine ⟨.tree ⟨s.trees.size⟩, t, extended, fun u later => ?_⟩
  have same : u.tree ⟨s.trees.size⟩ = cell := (later.tree made.1).2.trans made.2
  refine ⟨⟨s.trees.size⟩, vs, rfl, ?_⟩
  rw [same]
  refine ⟨rfl, u.marked_null, ?_, stand u (extended.trans later)⟩
  have fresh : u.addedTo (s.nextStamp + 1) = [] := by
    have same : u.addedTo (s.nextStamp + 1) = s.addedTo (s.nextStamp + 1) := by
      rw [Store.addedTo, Store.addedTo, (extended.trans later).additions]
    exact same.trans (Store.addedTo_of_isOrderly orderly (Nat.le_succ _))
  show some (vs ++ u.addedTo (s.nextStamp + 1)) = _
  rw [fresh, List.append_nil]

mutual

/-- Every tree of rules of the grammar, literals and names that has no marks can be put into a
store, and it stays there. -/
theorem exists_reads : ∀ (p : Phrase) (s : Store), (∀ q ∈ p.parts, q.IsBare) → s.IsOrderly →
    ∃ v t, s.Extends t ∧ ∀ u, t.Extends u → p.Reads u v
  | .rule label _ ps, s, bare, orderly => by
    obtain ⟨-, rfl⟩ := bare _ (mem_parts_self _)
    obtain ⟨vs, t, extended, stand⟩ :=
      exists_readsAll ps s (fun q hq => bare q (mem_parts_of_mem hq)) orderly
    obtain ⟨v, u, further, stands⟩ := exists_rule (extended.isOrderly orderly) stand label
    exact ⟨v, u, extended.trans further, stands⟩
  | .token kind text _, s, bare, _ => by
    obtain ⟨-, rfl⟩ := bare _ (mem_parts_self _)
    exact exists_token s kind text
  | .node _ _, _, bare, _ => (bare _ (mem_parts_self _)).elim
  | .other _, _, bare, _ => (bare _ (mem_parts_self _)).elim

theorem exists_readsAll : ∀ (ps : List Phrase) (s : Store), (∀ q ∈ partsOfAll ps, q.IsBare) →
    s.IsOrderly → ∃ vs t, s.Extends t ∧ ∀ u, t.Extends u → ReadsAll u ps vs
  | [], s, _, _ => ⟨[], s, .refl s, fun _ _ => trivial⟩
  | p :: ps, s, bare, orderly => by
    obtain ⟨first, rest⟩ := List.forall_mem_append.1 bare
    obtain ⟨v, t, extended, stands⟩ := exists_reads p s first orderly
    obtain ⟨vs, u, further, stand⟩ := exists_readsAll ps t rest (extended.isOrderly orderly)
    exact ⟨v :: vs, u, extended.trans further,
      fun w later => ⟨stands w (further.trans later), stand w later⟩⟩

end

end Phrase

/-! ## Nodes that can be written down -/

/-- A node of the form can be written down, as far as the form itself is concerned: it does not
raise, and a literal is null, a truth value, a text or an integer of not too many digits. -/
inductive Form.IsWritable : Form → Prop
  | literal {v : Value} {c : Constant} (writable : c.IsWritable) (is : c.Is v) :
      IsWritable (.literal v)
  | reference (name : Value) : IsWritable (.reference name)
  | call (callee args : Value) : IsWritable (.call callee args)
  | fallback (op : Operator) (lhs rhs : Value) : IsWritable (.fallback op lhs rhs)
  | ternary (condition thenBranch elseBranch : Value) :
      IsWritable (.ternary condition thenBranch elseBranch)

namespace Blueprint

/-- The expression describes the node for good, has no marks and can be written down. -/
structure IsWritingOf (s : Store) (b : Blueprint) (n : NodeRef) : Prop where
  writable : b.IsWritable
  unmarked_eq : b.unmarked = b
  describes (t : Store) (le : s ≤ t) : b.Describes t n

variable {s : Store}

theorem exists_areWritingsOf {vs : List Value}
    (h : ∀ v ∈ vs, ∃ m, v = .node m ∧ ∃ b : Blueprint, b.IsWritingOf s m) :
    ∃ bs, AreWritable bs ∧ unmarkedAll bs = bs ∧ ∀ t, s ≤ t → DescribeAll t bs vs := by
  induction vs with
  | nil => exact ⟨[], trivial, rfl, fun _ _ => trivial⟩
  | cons v vs ih =>
    obtain ⟨⟨m, same, b, first⟩, rest⟩ := List.forall_mem_cons.1 h
    obtain ⟨bs, writable, unmarked, all⟩ := ih rest
    refine ⟨b :: bs, ⟨first.writable, writable⟩, ?_,
      fun t le => ⟨⟨m, same, first.describes t le⟩, all t le⟩⟩
    rw [unmarkedAll, first.unmarked_eq, unmarked]

/-- Every built tree of forms that can be written down can be written down. -/
theorem exists_isWritingOf {n : NodeRef} (built : s.IsBuilt n)
    (writable : ∀ m, ReflTransGen s.Operand n m → (s.form m).IsWritable) :
    ∃ b : Blueprint, b.IsWritingOf s n := by
  obtain ⟨tree, founded⟩ := built
  induction founded with
  | intro n _ ih =>
    have below : ∀ v ∈ (s.form n).operands,
        ∃ m, v = .node m ∧ ∃ b : Blueprint, b.IsWritingOf s m := by
      intro v hv
      obtain ⟨m, rfl⟩ := tree.whole.operands v hv
      exact ⟨m, rfl, ih m hv (fun k hk => writable k (.head hv hk)) (tree.operand hv)⟩
    have fit := tree.whole.fit
    have here := writable n .refl
    have lasts {t : Store} (le : s ≤ t) : t.form n = s.form n :=
      Store.form_eq_of_le le tree.whole.made
    cases form : s.form n with
    | literal v =>
      rw [form] at here
      cases here with
      | @literal _ c writes is =>
        exact ⟨.literal none c, writes, rfl, fun t le => ⟨v, (lasts le).trans form, is⟩⟩
    | reference name =>
      rw [form] at fit
      obtain ⟨⟨text, named, filled⟩, there⟩ := fit
      exact ⟨.reference none text, filled, rfl,
        fun t le => ⟨name, (lasts le).trans form, Store.text?_of_le le there named⟩⟩
    | call callee args =>
      rw [form] at fit below
      obtain ⟨items, stamp, rfl⟩ := fit
      obtain ⟨c, rfl, b, first⟩ := below callee (List.mem_cons_self ..)
      obtain ⟨bs, writes, unmarked, all⟩ :=
        exists_areWritingsOf fun v hv => below v (List.mem_cons_of_mem _ hv)
      refine ⟨.call none b bs, ⟨first.writable, writes⟩, ?_,
        fun t le => ⟨c, items, stamp, (lasts le).trans form, first.describes t le, all t le⟩⟩
      rw [Blueprint.unmarked, first.unmarked_eq, unmarked]
    | fallback op lhs rhs =>
      rw [form] at below
      simp only [Form.operands, List.forall_mem_cons] at below
      obtain ⟨⟨l, rfl, b, first⟩, ⟨r, rfl, b', second⟩, -⟩ := below
      refine ⟨.fallback none op b b', ⟨first.writable, second.writable⟩, ?_, fun t le =>
        ⟨l, r, (lasts le).trans form, first.describes t le, second.describes t le⟩⟩
      rw [unmarked, first.unmarked_eq, second.unmarked_eq]
    | ternary condition thenBranch elseBranch =>
      rw [form] at below
      simp only [Form.operands, List.forall_mem_cons] at below
      obtain ⟨⟨k, rfl, b, first⟩, ⟨l, rfl, b', second⟩, ⟨m, rfl, b'', third⟩, -⟩ := below
      refine ⟨.ternary none b b' b'', ⟨first.writable, second.writable, third.writable⟩, ?_,
        fun t le => ⟨k, l, m, (lasts le).trans form, first.describes t le, second.describes t le,
          third.describes t le⟩⟩
      rw [unmarked, first.unmarked_eq, second.unmarked_eq, third.unmarked_eq]
    | raise exception =>
      rw [form] at here
      cases here

mutual

theorem IsWritable.isNumeric : ∀ {b : Blueprint}, b.IsWritable → b.IsNumeric
  | .literal _ _, writable => by
    rintro rfl
    exact writable
  | .reference _ _, _ => trivial
  | .call _ _ _, ⟨first, rest⟩ => ⟨first.isNumeric, rest.areNumeric⟩
  | .fallback _ _ _ _, ⟨first, second⟩ => ⟨first.isNumeric, second.isNumeric⟩
  | .ternary _ _ _ _, ⟨first, second, third⟩ =>
    ⟨first.isNumeric, second.isNumeric, third.isNumeric⟩

theorem AreWritable.areNumeric : ∀ {bs : List Blueprint}, AreWritable bs → AreNumeric bs
  | [], _ => trivial
  | _ :: _, ⟨first, rest⟩ => ⟨first.isNumeric, rest.areNumeric⟩

end

end Blueprint

/-! ## Lowering what was written -/

theorem Phrase.height_root_le (p : Phrase) : p.root.height ≤ max p.height 2 := by
  cases p with
  | token => exact Nat.le_max_right _ _
  | _ => exact Nat.le_max_left _ _

/-- A tree that is accepted is not nested too deep. -/
theorem Phrase.height_le_of_verdict {i : Interpreter} {p : Phrase} {b : Blueprint}
    (h : p.verdict i = .ok b) : p.root.height ≤ i.treeDepth := by
  refine Nat.le_of_not_lt fun deep => ?_
  obtain ⟨k, fails⟩ := exists_error_of_verdict deep
  rw [fails] at h
  cases h

/-- An expression that is written down and then lowered is the same expression, if it does not take
too much nesting. -/
theorem lowers_phrase {s : Store} {b : Blueprint} {v : Value} (writable : b.IsWritable)
    (shallow : max b.nesting 2 ≤ s.interpreter.treeDepth) (reads : b.phrase.Reads s v)
    (orderly : s.IsOrderly) :
    ∃ m t, (lower v).runOn s = (.ok (.node m), t) ∧ s ≤ t ∧ b.unmarked.Shows t m := by
  have low : b.phrase.root.height ≤ s.interpreter.treeDepth := by
    refine Nat.le_trans b.phrase.height_root_le ?_
    rw [Blueprint.height_phrase writable]
    exact shallow
  have verdict : b.phrase.verdict s.interpreter = .ok b.unmarked := Phrase.verdict_of_translate
    (Phrase.translate_root.2 (Blueprint.translate_phrase writable))
    (Phrase.isTame_root.2 fun q hq => (Blueprint.isBare_phrase writable q hq).isTame _) low
  have lowers := lowers_of_reads reads orderly
  rw [verdict] at lowers
  exact lowers

/-- No tree of the grammar is lowered to a node of an expression that takes too much nesting. -/
theorem nesting_le_of_lower {s t : Store} {b : Blueprint} {p : Phrase} {v : Value} {m : NodeRef}
    (writable : b.IsWritable) (grammatical : ∀ q ∈ p.parts, q.IsGrammatical) (reads : p.Reads s v)
    (orderly : s.IsOrderly) (runs : (lower v).runOn s = (.ok (.node m), t))
    (describes : b.Describes t m) : b.nesting ≤ s.interpreter.treeDepth := by
  obtain ⟨c, n, verdict, same, -, shows⟩ := verdict_of_runOn_lower reads orderly runs
  cases same
  have rooted : ∀ q ∈ p.root.parts, q.IsGrammatical := by
    cases p with
    | token kind text mark => exact List.forall_mem_cons.2 ⟨⟨.group, rfl⟩, grammatical⟩
    | _ => exact grammatical
  have became := Phrase.translated_of_verdict rooted verdict
  exact Nat.le_trans (Blueprint.nesting_le_height writable describes rooted became shows.describes)
    (Phrase.height_le_of_verdict verdict)

/-- A tree that was built out of names, operators, calls, choices and literals that can be written
down is an expression, and there is one for it only but for the marks. If the expression does not
take more nesting than the interpreter allows, then some tree of rules of the grammar, literals and
names is lowered to a node of the same expression; the two are found equal unless the comparison
runs out of depth. In an interpreter that allows less nesting, no tree of the grammar is. -/
theorem exists_lowered_of_isBuilt {s : Store} {n : NodeRef} (built : s.IsBuilt n)
    (writable : ∀ m, ReflTransGen s.Operand n m → (s.form m).IsWritable) (orderly : s.IsOrderly) :
    ∃ b : Blueprint, b.IsWritable ∧ b.Describes s n ∧
      (∀ c : Blueprint, c.IsExplicit → c.Describes s n → c.unmarked = b) ∧
      (max b.nesting 2 ≤ s.interpreter.treeDepth →
        ∃ (p : Phrase) (v : Value) (t u : Store) (m : NodeRef),
          (∀ q ∈ p.parts, q.IsBare) ∧ s.Extends t ∧ p.Reads t v ∧
          (lower v).runOn t = (.ok (.node m), u) ∧ b.Describes u n ∧ b.Describes u m ∧
          (u.areEqual (.node m) (.node n) = .ok true ∨
            u.areEqual (.node m) (.node n) = .error .tooDeep ∧
              u.interpreter.valueDepth < 4 * b.height)) ∧
      ∀ (p : Phrase) (v : Value) (t u : Store) (m : NodeRef),
        t.interpreter.treeDepth < b.nesting → (∀ q ∈ p.parts, q.IsGrammatical) → p.Reads t v →
        t.IsOrderly → (lower v).runOn t = (.ok (.node m), u) → ¬b.Describes u m := by
  obtain ⟨b, writing⟩ := Blueprint.exists_isWritingOf built writable
  have writes := writing.writable
  have here := writing.describes s (le_refl s)
  refine ⟨b, writes, here, fun c explicit describes => ?_, fun shallow => ?_, ?_⟩
  · exact (describes.unmarked_eq here explicit writes.isExplicit).trans writing.unmarked_eq
  · have bare : ∀ q ∈ b.phrase.parts, q.IsBare := Blueprint.isBare_phrase writes
    obtain ⟨v, t, extended, stands⟩ := Phrase.exists_reads b.phrase s bare orderly
    have reads := stands t (.refl t)
    obtain ⟨m, u, runs, le, shows⟩ :=
      lowers_phrase writes (extended.interpreter ▸ shallow) reads (extended.isOrderly orderly)
    rw [writing.unmarked_eq] at shows
    have kept := writing.describes u (le_trans extended.le le)
    exact ⟨b.phrase, v, t, u, m, bare, extended, reads, runs, kept, shows.describes,
      shows.areEqual kept writes.isNumeric⟩
  · intro p v t u m deep grammatical reads orderly' runs describes
    exact absurd (nesting_le_of_lower writes grammatical reads orderly' runs describes)
      (Nat.not_le_of_lt deep)

/-- An operator whose operands are one and the same literal, the text that is a quotation mark. -/
def quotationTree : Attempt NodeRef :=
  Attempt.doubled (.literal (.str "\"" Store.noStamp)) .onNull .null

/-- The store in which the tree was made. -/
def quotationStore : Store :=
  (quotationTree.runOn Store.empty).2

/-- What the tree says. -/
def quotationBlueprint : Blueprint :=
  let quotation : Blueprint := .literal none (.text "\"")
  .fallback none .onNull quotation quotation

/-- The quotation mark is written between quotation marks, twice, and lowered again. -/
theorem exists_lowered_of_quotation :
    quotationStore.IsBuilt ⟨1⟩ ∧
    (∀ m, ReflTransGen quotationStore.Operand ⟨1⟩ m → (quotationStore.form m).IsWritable) ∧
    quotationStore.IsOrderly ∧
    ∃ (p : Phrase) (v : Value) (t u : Store) (m : NodeRef),
      (∀ q ∈ p.parts, q.IsBare) ∧ quotationStore.Extends t ∧ p.Reads t v ∧
      (lower v).runOn t = (.ok (.node m), u) ∧ quotationBlueprint.Describes u ⟨1⟩ ∧
      quotationBlueprint.Describes u m ∧ u.areEqual (.node m) (.node ⟨1⟩) = .ok true := by
  have made : quotationTree.runOn Store.empty = (.ok ⟨1⟩, quotationStore) := rfl
  have built : quotationStore.IsBuilt ⟨1⟩ :=
    Attempt.isBuilt_of_doubled (Store.knows_all rfl) (by decide) made
  have writable : ∀ m, ReflTransGen quotationStore.Operand ⟨1⟩ m →
      (quotationStore.form m).IsWritable := by
    rintro ⟨_ | _ | i⟩ -
    · exact @Form.IsWritable.literal _ (.text "\"") trivial ⟨_, rfl⟩
    · exact .fallback _ _ _
    · exact @Form.IsWritable.literal _ .null trivial rfl
  have orderly : quotationStore.IsOrderly := fun a ha => absurd ha (Array.not_mem_empty a)
  have describes : quotationBlueprint.Describes quotationStore ⟨1⟩ :=
    ⟨⟨0⟩, ⟨0⟩, rfl, ⟨_, rfl, _, rfl⟩, ⟨_, rfl, _, rfl⟩⟩
  obtain ⟨b, -, -, only, writes, -⟩ := exists_lowered_of_isBuilt built writable orderly
  obtain rfl := only quotationBlueprint ⟨trivial, trivial⟩ describes
  obtain ⟨p, v, t, u, m, bare, extended, reads, runs, first, second, equal⟩ := writes (by decide)
  exact ⟨built, writable, orderly, p, v, t, u, m, bare, extended, reads, runs, first, second,
    equal.resolve_right fun deep =>
      absurd deep.2 (Nat.not_lt_of_le (u.interpreter.le_valueDepth (by decide)))⟩

/-! ## What takes too much nesting -/

/-- A name that is called so many times. -/
def Blueprint.calls : Nat → Blueprint
  | 0 => .reference none "f"
  | count + 1 => .call none (calls count) []

/-- The form of such a call over a reference to the one before. -/
def callsForm : Nat → Form
  | 0 => .reference (.str "f" 1)
  | count + 1 => .call (.node ⟨count⟩) (.tuple [] 2)

/-- A name and so many calls, each of the one before. -/
def callsStore (size : Nat) : Store :=
  { Store.empty with
    nodes := Array.ofFn fun i : Fin (size + 1) => ⟨callsForm i, .null, []⟩
    nextStamp := 3 }

theorem nodes_callsStore (size i : Nat) : (callsStore size).nodes[i]? =
    if i < size + 1 then some ⟨callsForm i, .null, []⟩ else none := by
  rw [callsStore, Array.getElem?_ofFn]
  rfl

theorem form_callsStore {size count : Nat} (h : count ≤ size) :
    (callsStore size).form ⟨count⟩ = callsForm count := by
  rw [Store.form, Store.node, nodes_callsStore, if_pos (Nat.lt_succ_of_le h)]
  rfl

theorem Blueprint.describes_calls {size count : Nat} (h : count ≤ size) :
    (calls count).Describes (callsStore size) ⟨count⟩ := by
  induction count with
  | zero => exact ⟨_, form_callsStore h, rfl⟩
  | succ count ih => exact ⟨⟨count⟩, [], 2, form_callsStore h, ih (Nat.le_of_succ_le h), trivial⟩

theorem Blueprint.isWritable_calls (count : Nat) : (calls count).IsWritable := by
  induction count with
  | zero =>
    show "f" ≠ ""
    decide
  | succ count ih => exact ⟨ih, trivial⟩

theorem Blueprint.nesting_calls (count : Nat) : (calls count).nesting = count + 1 := by
  induction count with
  | zero => rfl
  | succ count ih => rw [calls, nesting, ih, nestingOfAll, Nat.max_zero]

theorem isBuilt_callsStore {size count : Nat} (h : count ≤ size) :
    (callsStore size).IsBuilt ⟨count⟩ := by
  have made : count < (callsStore size).nodes.size := by
    simpa [callsStore] using Nat.lt_succ_of_le h
  have form := form_callsStore h
  induction count with
  | zero =>
    have none : ∀ m, ¬(callsStore size).Operand ⟨0⟩ m := by
      intro m operand
      rw [Store.Operand, form] at operand
      cases operand
    refine ⟨.of_trees [] made ?_ ?_ (List.forall_mem_nil _), .intro _ fun m h => (none m h).elim⟩
    · rw [form]
      exact ⟨⟨"f", rfl, by decide⟩, fun r same => by cases same⟩
    · rw [form]
      rfl
  | succ count ih =>
    have h' := Nat.le_of_succ_le h
    have below := ih h' (Nat.lt_of_succ_lt made) (form_callsStore h')
    refine ⟨.of_trees [⟨count⟩] made ?_ ?_ (List.forall_mem_singleton.2 below.tree),
      .intro _ fun m operand => ?_⟩
    · rw [form]
      exact ⟨[], 2, rfl⟩
    · rw [form]
      rfl
    · rw [Store.Operand, form] at operand
      cases List.mem_singleton.1 operand
      exact below.founded

theorem isWritable_callsStore (size : Nat) (m : NodeRef) :
    ((callsStore size).form m).IsWritable := by
  have form : (callsStore size).form m = callsForm m.index ∨
      (callsStore size).form m = .literal .null := by
    by_cases there : m.index ≤ size
    · exact .inl (form_callsStore there)
    · rw [Store.form, Store.node, nodes_callsStore, if_neg fun h => there (Nat.le_of_lt_succ h)]
      exact .inr rfl
  generalize (callsStore size).form m = f at form
  obtain rfl | rfl := form
  · cases m.index with
    | zero => exact .reference _
    | succ count => exact .call _ _
  · exact @Form.IsWritable.literal _ .null trivial rfl

/-- A name that is called again and again, however often, is a tree that was built out of names and
calls alone. In an interpreter that does not allow more nesting than there are calls, no tree of the
grammar is lowered to it. -/
theorem not_lowered_of_calls :
    (∀ count : Nat, (callsStore count).IsBuilt ⟨count⟩ ∧
      (∀ m, ReflTransGen (callsStore count).Operand ⟨count⟩ m →
        ((callsStore count).form m).IsWritable) ∧
      (callsStore count).IsOrderly ∧
      (Blueprint.calls count).Describes (callsStore count) ⟨count⟩) ∧
    ∀ (count : Nat) (p : Phrase) (v : Value) (t u : Store) (m : NodeRef),
      t.interpreter.treeDepth ≤ count → (∀ q ∈ p.parts, q.IsGrammatical) → p.Reads t v →
      t.IsOrderly → (lower v).runOn t = (.ok (.node m), u) →
      ¬(Blueprint.calls count).Describes u m := by
  refine ⟨fun count => ⟨isBuilt_callsStore (Nat.le_refl _),
    fun m _ => isWritable_callsStore count m, nofun, Blueprint.describes_calls (Nat.le_refl _)⟩, ?_⟩
  intro count p v t u m limit grammatical reads orderly runs describes
  have shallow := nesting_le_of_lower (Blueprint.isWritable_calls count) grammatical reads orderly
    runs describes
  rw [Blueprint.nesting_calls] at shallow
  exact absurd limit (Nat.not_le_of_lt shallow)

end Fallback
