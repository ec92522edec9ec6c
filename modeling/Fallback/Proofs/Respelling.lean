import Fallback.Proofs.Description
import Fallback.Proofs.Origin
import Fallback.Proofs.Translation
import Mathlib.Data.List.Forall2
import Mathlib.Logic.Relation

/-!
Spelling a tree differently.

Lowering is compositional. `Phrase.Respells` has the ways to spell a tree differently that should
not matter: a part that was lowered before may stand for itself, a part may be grouped, and a rule
may have more or less of the punctuation that it drops. `Blueprint.Entails` says how the meanings of
the two trees are related: whatever node shows the one shows the other as well. A node that stands
for what it was lowered from shows that expression, and all the rest follows because the reference
works on what the parts have become and looks at nothing but their kinds
(`Phrase.Respells.translate`).

Two things can still go wrong, and neither is about the spelling. Groups are nested like other
rules, so there may be too many of them; and equality may be unable to confirm that the two nodes
are the same.
-/
namespace Fallback

open Attempt
open Relation (ReflTransGen)

namespace Phrase

/-- The node is what lowering the phrase has ended with, and it has stayed what it was. -/
def LowersTo (s : Store) (q : Phrase) (n : NodeRef) : Prop :=
  ∃ (u t : Store) (v : Value), u.IsOrderly ∧ q.Reads u v ∧
    (lower v).runOn u = (.ok (.node n), t) ∧ t.KeepsPlaces s

/-- The phrase stands for an expression: it is a rule, a token that is a literal or a name, or a
node. -/
def IsExpression : Phrase → Prop
  | .rule _ _ _ | .node _ _ => True
  | .token kind _ _ => ∃ t : Terminal, kind = t.kind
  | .other _ => False

/-- The phrase is punctuation of the rule, of a kind that means nothing. -/
def IsDroppedBy (i : Interpreter) (r : Rule) : Phrase → Prop
  | .token kind text _ => Meaning.of i kind = .unknown ∧ text ∈ r.punctuation
  | _ => False

/-- The second phrase is the first one with a part replaced by the node that it was lowered to, a
part grouped, or a piece of punctuation inserted or removed. -/
inductive Respells (s : Store) : Phrase → Phrase → Prop
  | lowered {q : Phrase} {n : NodeRef} (lowers : q.LowersTo s n) :
      Respells s q (.node n (s.form n).kind)
  | grouped {q : Phrase} {before after : List Phrase} (mark : Mark) (expression : q.IsExpression)
      (opening : ∀ u ∈ before, u.IsDroppedBy s.interpreter .group)
      (closing : ∀ u ∈ after, u.IsDroppedBy s.interpreter .group) :
      Respells s q (.rule Rule.group.label mark (before ++ q :: after))
  | inserted {r : Rule} {mark : Mark} {before after : List Phrase} {u : Phrase}
      (dropped : u.IsDroppedBy s.interpreter r) :
      Respells s (.rule r.label mark (before ++ after)) (.rule r.label mark (before ++ u :: after))
  | removed {r : Rule} {mark : Mark} {before after : List Phrase} {u : Phrase}
      (dropped : u.IsDroppedBy s.interpreter r) :
      Respells s (.rule r.label mark (before ++ u :: after)) (.rule r.label mark (before ++ after))
  | within {label : String} {mark : Mark} {before after : List Phrase} {q q' : Phrase}
      (step : Respells s q q') :
      Respells s (.rule label mark (before ++ q :: after)) (.rule label mark (before ++ q' :: after))

end Phrase

/-! ## Entailment -/

/-- Whatever node shows the first expression from now on also shows the second, and the two are of
one kind. -/
structure Blueprint.Entails (s : Store) (b c : Blueprint) : Prop where
  kind : b.kind = c.kind
  shows (t : Store) (n : NodeRef) (keeps : s.KeepsPlaces t) (h : b.Shows t n) : c.Shows t n

namespace Blueprint

variable {s t : Store} {b c d : Blueprint} {bs cs : List Blueprint} {mark : Mark} {op : Operator}

theorem Entails.refl (b : Blueprint) : b.Entails s b :=
  ⟨rfl, fun _ _ _ h => h⟩

theorem Entails.trans (h : b.Entails s c) (k : c.Entails s d) : b.Entails s d :=
  ⟨h.kind.trans k.kind, fun t n keeps shows => k.shows t n keeps (h.shows t n keeps shows)⟩

/-- A node that shows an expression may stand for it. -/
theorem entails_of_shows {n : NodeRef} (h : b.Shows s n) :
    (Blueprint.node n (s.form n).kind).Entails s b := by
  refine ⟨h.kind, fun t m keeps shows => ?_⟩
  obtain ⟨rfl, -, -⟩ := shows
  exact h.mono keeps

theorem showAll_of_entails (h : List.Forall₂ (Entails s) bs cs) (keeps : s.KeepsPlaces t) :
    ∀ {vs : List Value}, ShowAll t bs vs → ShowAll t cs vs := by
  induction h with
  | nil => exact fun all => all
  | cons first _ ih =>
    intro vs all
    obtain ⟨n, more, rfl, shows, rest⟩ := all.exists_cons
    exact ⟨⟨n, rfl, first.shows t n keeps shows⟩, ih rest⟩

theorem Entails.call (callee : b.Entails s c) (args : List.Forall₂ (Entails s) bs cs) :
    (Blueprint.call mark b bs).Entails s (.call mark c cs) := by
  refine ⟨rfl, fun t n keeps shows => ?_⟩
  obtain ⟨m, items, stamp, holds, first, rest⟩ := shows
  exact ⟨m, items, stamp, holds, callee.shows t m keeps first, showAll_of_entails args keeps rest⟩

theorem Entails.fallback {b' c' : Blueprint} (lhs : b.Entails s c) (rhs : b'.Entails s c') :
    (Blueprint.fallback mark op b b').Entails s (.fallback mark op c c') := by
  refine ⟨rfl, fun t n keeps shows => ?_⟩
  obtain ⟨l, r, holds, left, right⟩ := shows
  exact ⟨l, r, holds, lhs.shows t l keeps left, rhs.shows t r keeps right⟩

theorem Entails.fold (first : b.Entails s c) (rest : List.Forall₂ (Entails s) bs cs) :
    (fold mark op b bs).Entails s (fold mark op c cs) := by
  induction rest generalizing b c with
  | nil => exact first
  | cons next _ ih => exact first.fallback (ih next)

theorem Entails.ternary {b' c' b'' c'' : Blueprint} (condition : b.Entails s c)
    (thenBranch : b'.Entails s c') (elseBranch : b''.Entails s c'') :
    (Blueprint.ternary mark b b' b'').Entails s (.ternary mark c c' c'') := by
  refine ⟨rfl, fun t n keeps shows => ?_⟩
  obtain ⟨k, l, m, holds, first, second, third⟩ := shows
  exact ⟨k, l, m, holds, condition.shows t k keeps first, thenBranch.shows t l keeps second,
    elseBranch.shows t m keeps third⟩

end Blueprint

/-- A token is the same token, and an expression entails the other. -/
inductive Morsel.Entails (s : Store) : Morsel → Morsel → Prop
  | token (text : String) : Entails s (.token text) (.token text)
  | node {b c : Blueprint} (h : b.Entails s c) : Entails s (.node b) (.node c)
  | other : Entails s .other .other
  | dropped : Entails s .dropped .dropped

theorem Morsel.Entails.refl {s : Store} (m : Morsel) : m.Entails s m := by
  cases m with
  | token text => exact .token text
  | node b => exact .node (.refl b)
  | other => exact .other
  | dropped => exact .dropped

theorem Morsel.Entails.trans {s : Store} {m m' m'' : Morsel} (h : m.Entails s m')
    (k : m'.Entails s m'') : m.Entails s m'' := by
  cases h with
  | token => exact k
  | node h =>
    cases k with
    | node k => exact .node (h.trans k)
  | other => exact k
  | dropped => exact k

/-- What entails other expressions is left in front of them, or dropped, as the other is. -/
theorem Morsel.Entails.before {s : Store} {m m' : Morsel} {ms ns : List Morsel} (h : m.Entails s m')
    (rest : List.Forall₂ (Morsel.Entails s) ms ns) :
    List.Forall₂ (Morsel.Entails s) (m.before ms) (m'.before ns) := by
  cases h with
  | dropped => exact rest
  | token => exact .cons (.token _) rest
  | node h => exact .cons (.node h) rest
  | other => exact .cons .other rest

/-! ## Rules -/

namespace Rule

variable {s : Store} {r : Rule} {mark : Mark} {ms ns : List Morsel} {bs cs : List Blueprint}
  {c : Blueprint}

/-- Every rule has a label of its own. -/
theorem eq_of_label {r r' : Rule} (h : r.label = r'.label) : r = r' := by
  have same := Rule.of?_label r
  rw [h, Rule.of?_label] at same
  exact (Option.some.inj same).symm

theorem operands_append (r : Rule) (ms ns : List Morsel) :
    r.operands (ms ++ ns) =
      (r.operands ms).bind fun bs => (r.operands ns).map fun cs => bs ++ cs := by
  induction ms with
  | nil => cases h : r.operands ns <;> simp [operands, h]
  | cons m ms ih =>
    cases m with
    | token text =>
      simp only [List.cons_append, operands]
      split
      · exact ih
      · rfl
    | node b =>
      simp only [List.cons_append, operands, ih]
      cases r.operands ms with
      | none => rfl
      | some bs => cases r.operands ns <;> rfl
    | other => rfl
    | dropped => rfl

/-- Punctuation of a rule does not count among its parts. -/
theorem operands_insert {text : String} (h : text ∈ r.punctuation) (ms ns : List Morsel) :
    r.operands (ms ++ .token text :: ns) = r.operands (ms ++ ns) := by
  rw [operands_append, operands_append, operands, if_pos (by simpa using h)]

theorem translate_insert {text : String} (h : text ∈ r.punctuation) (ms ns : List Morsel) :
    r.translate mark (ms ++ .token text :: ns) = r.translate mark (ms ++ ns) := by
  cases r with
  | literal | var => cases h
  | group | call | chain | ternary => simp only [translate, operands_insert h]

theorem exists_operands (h : List.Forall₂ (Morsel.Entails s) ms ns)
    (found : r.operands ns = some cs) :
    ∃ bs, r.operands ms = some bs ∧ List.Forall₂ (Blueprint.Entails s) bs cs := by
  induction h generalizing cs with
  | nil =>
    cases found
    exact ⟨[], rfl, .nil⟩
  | cons first _ ih =>
    cases first with
    | token text =>
      rw [operands] at found
      split at found
      · next dropped =>
        obtain ⟨bs, same, entail⟩ := ih found
        exact ⟨bs, by rw [operands, if_pos dropped, same], entail⟩
      · cases found
    | @node b c entails =>
      obtain ⟨cs', rest, rfl⟩ := Option.map_eq_some_iff.1 found
      obtain ⟨bs, same, entail⟩ := ih rest
      exact ⟨b :: bs, by rw [operands, same]; rfl, .cons entails entail⟩
    | other => cases found
    | dropped => cases found

theorem exists_join (h : List.Forall₂ (Blueprint.Entails s) bs cs)
    (joined : r.join mark cs = some c) : ∃ b, r.join mark bs = some b ∧ b.Entails s c := by
  rw [join.eq_def] at joined
  split at joined
  · cases joined
    cases h with
    | cons first rest =>
      cases rest
      exact ⟨_, rfl, first⟩
  · cases joined
    cases h with
    | cons first rest => exact ⟨_, rfl, first.call rest⟩
  · cases joined
    cases h with
    | cons first rest =>
      cases rest with
      | cons second rest => exact ⟨_, rfl, first.fallback (second.fold rest)⟩
  · cases joined
    cases h with
    | cons first rest =>
      cases rest with
      | cons second rest =>
        cases rest with
        | cons third rest =>
          cases rest
          exact ⟨_, rfl, first.ternary second third⟩
  · cases joined

theorem exists_only {kind : NodeKind} (h : List.Forall₂ (Morsel.Entails s) ms ns)
    (found : only kind ns = some c) : ∃ b, only kind ms = some b ∧ b.Entails s c := by
  rw [only.eq_def] at found
  split at found
  · next c' =>
    split at found
    · next is =>
      cases found
      cases h with
      | cons first rest =>
        cases rest
        cases first with
        | @node b _ entails => exact ⟨b, by rw [only, if_pos (entails.kind.trans is)], entails⟩
    · cases found
  · cases found

/-- A rule makes of parts that entail others what entails what it makes of the others. -/
theorem exists_translate (h : List.Forall₂ (Morsel.Entails s) ms ns)
    (became : r.translate mark ns = some c) :
    ∃ b, r.translate mark ms = some b ∧ b.Entails s c := by
  have gathered {r : Rule} (became : (r.operands ns).bind (r.join mark) = some c) :
      ∃ b, (r.operands ms).bind (r.join mark) = some b ∧ b.Entails s c := by
    obtain ⟨cs, found, joined⟩ := Option.bind_eq_some_iff.1 became
    obtain ⟨bs, same, entail⟩ := exists_operands h found
    obtain ⟨b, made, entails⟩ := exists_join entail joined
    exact ⟨b, by rw [same]; exact made, entails⟩
  cases r with
  | literal => exact exists_only h became
  | var => exact exists_only h became
  | group => exact gathered became
  | call => exact gathered became
  | chain op => exact gathered became
  | ternary => exact gathered became

end Rule

/-! ## The reference -/

namespace Phrase

variable {s : Store} {i : Interpreter} {p p' q : Phrase} {m : Morsel} {b : Blueprint}
  {label : String} {mark : Mark} {ps qs before after : List Phrase}

theorem translateAll_append (ps qs : List Phrase) :
    translateAll (ps ++ qs) =
      (translateAll ps).bind fun ms => (translateAll qs).map fun ns => ms ++ ns := by
  induction ps with
  | nil => cases h : translateAll qs <;> simp [translateAll, h]
  | cons p ps ih =>
    rw [List.cons_append, translateAll, translateAll, ih]
    cases p.translate with
    | none => rfl
    | some m =>
      cases translateAll ps with
      | none => rfl
      | some ms =>
        cases translateAll qs with
        | none => rfl
        | some ns => simp only [Option.bind_eq_bind, Option.bind_some, Option.map_some,
            Option.pure_def, Morsel.before_append]

theorem translateAll_append_eq_some {ms : List Morsel} :
    translateAll (ps ++ qs) = some ms ↔
      ∃ ns ns', translateAll ps = some ns ∧ translateAll qs = some ns' ∧ ms = ns ++ ns' := by
  rw [translateAll_append, Option.bind_eq_some_iff]
  constructor
  · rintro ⟨ns, first, rest⟩
    obtain ⟨ns', second, rfl⟩ := Option.map_eq_some_iff.1 rest
    exact ⟨ns, ns', first, second, rfl⟩
  · rintro ⟨ns, ns', first, second, rfl⟩
    exact ⟨ns, first, by rw [second]; rfl⟩

theorem translateAll_cons_eq_some {ms : List Morsel} :
    translateAll (p :: ps) = some ms ↔
      ∃ m ns, p.translate = some m ∧ translateAll ps = some ns ∧ ms = m.before ns := by
  constructor
  · intro h
    obtain ⟨m, first, h⟩ := Option.bind_eq_some_iff.1 h
    obtain ⟨ns, rest, h⟩ := Option.bind_eq_some_iff.1 h
    cases h
    exact ⟨m, ns, first, rest, rfl⟩
  · rintro ⟨m, ns, first, rest, rfl⟩
    rw [translateAll, first, rest]
    rfl

theorem translate_rule_eq_some :
    (Phrase.rule label mark ps).translate = some m ↔
      ∃ (r : Rule) (ms : List Morsel) (b : Blueprint), label = r.label ∧
        translateAll ps = some ms ∧ r.translate mark ms = some b ∧ m = .node b := by
  constructor
  · intro h
    obtain ⟨ms, below, h⟩ := Option.bind_eq_some_iff.1 h
    cases rule : Rule.of? label with
    | some r =>
      rw [rule] at h
      obtain ⟨b, became, rfl⟩ := Option.map_eq_some_iff.1 h
      exact ⟨r, ms, b, (Rule.label_of_of? rule).symm, below, became, rfl⟩
    | none =>
      rw [rule] at h
      cases h
  · rintro ⟨r, ms, b, rfl, below, became, rfl⟩
    simp only [translate, below, Option.bind_eq_bind, Option.bind_some, Rule.of?_label, became,
      Option.map_some]

/-- What stands for an expression becomes one. -/
theorem IsExpression.exists_node (h : q.IsExpression) (became : q.translate = some m) :
    ∃ b, m = .node b := by
  cases q with
  | rule label mark ps =>
    obtain ⟨-, -, b, -, -, -, rfl⟩ := translate_rule_eq_some.1 became
    exact ⟨b, rfl⟩
  | token kind text mark =>
    obtain ⟨t, rfl⟩ := h
    simp only [translate, Terminal.of?_kind] at became
    obtain ⟨b, -, rfl⟩ := Option.map_eq_some_iff.1 became
    exact ⟨b, rfl⟩
  | node n kind =>
    cases became
    exact ⟨_, rfl⟩
  | other v => exact h.elim

/-- A group that holds nothing else becomes what the part in it becomes. -/
theorem translate_group {ms ns : List Morsel} (opening : translateAll before = some ms)
    (dropped : Rule.group.operands ms = some []) (closing : translateAll after = some ns)
    (dropped' : Rule.group.operands ns = some []) (became : q.translate = some (.node b)) :
    (Phrase.rule Rule.group.label mark (before ++ q :: after)).translate = some (.node b) := by
  have parts : translateAll (before ++ q :: after) = some (ms ++ .node b :: ns) :=
    translateAll_append_eq_some.2 ⟨ms, _, opening,
      translateAll_cons_eq_some.2 ⟨_, ns, became, closing, rfl⟩, rfl⟩
  have operands : Rule.group.operands (ms ++ .node b :: ns) = some [b] := by
    rw [Rule.operands_append, dropped, Rule.operands, dropped']
    rfl
  refine translate_rule_eq_some.2 ⟨.group, _, b, rfl, parts, ?_, rfl⟩
  simp only [Rule.translate, operands]
  rfl

theorem translate_root : p.root.translate = some (.node b) ↔ p.translate = some (.node b) := by
  cases p with
  | token kind text mark =>
    constructor
    · intro h
      obtain ⟨r, ms, b', label, below, became, same⟩ := translate_rule_eq_some.1 h
      cases same
      obtain rfl := Rule.eq_of_label label
      obtain ⟨m, ns, first, rest, rfl⟩ := translateAll_cons_eq_some.1 below
      cases rest
      obtain ⟨bs, operands, joined⟩ := Option.bind_eq_some_iff.1 became
      cases m with
      | token text' =>
        rw [show (Morsel.token text').before [] = [.token text'] from rfl,
          Rule.operands] at operands
        split at operands
        · cases operands
          cases joined
        · cases operands
      | node b' =>
        cases operands
        cases joined
        exact first
      | other => cases operands
      | dropped =>
        cases operands
        cases joined
    · intro h
      show (Phrase.rule Rule.group.label none ([] ++ .token kind text mark :: [])).translate = _
      exact translate_group rfl rfl rfl rfl h
  | _ => exact Iff.rfl

theorem isLabelled_root (h : ∀ u ∈ p.parts, u.IsLabelled) : ∀ u ∈ p.root.parts, u.IsLabelled := by
  cases p with
  | token kind text mark => exact List.forall_mem_cons.2 ⟨⟨.group, rfl⟩, h⟩
  | _ => exact h

/-- Punctuation of a rule is left as it is. -/
theorem IsDroppedBy.exists_token {r : Rule} (h : q.IsDroppedBy i r) :
    ∃ text ∈ r.punctuation, q.translate = some (.token text) := by
  cases q with
  | token kind text mark =>
    exact ⟨text, h.2, translate_of_unknown h.1⟩
  | _ => exact h.elim

theorem exists_of_isDroppedBy {r : Rule} (h : ∀ u ∈ ps, u.IsDroppedBy i r) :
    ∃ ms, translateAll ps = some ms ∧ r.operands ms = some [] := by
  induction ps with
  | nil => exact ⟨[], rfl, rfl⟩
  | cons p ps ih =>
    obtain ⟨first, rest⟩ := List.forall_mem_cons.1 h
    obtain ⟨text, dropped, became⟩ := first.exists_token
    obtain ⟨ms, below, none⟩ := ih rest
    refine ⟨.token text :: ms, translateAll_cons_eq_some.2 ⟨_, _, became, below, rfl⟩, ?_⟩
    rw [Rule.operands, if_pos (by simpa using dropped), none]

/-- With or without a piece of its punctuation, a rule becomes the same. -/
theorem translate_insert {r : Rule} (dropped : q.IsDroppedBy i r) :
    (Phrase.rule r.label mark (before ++ q :: after)).translate =
      (Phrase.rule r.label mark (before ++ after)).translate := by
  obtain ⟨text, punctuation, became⟩ := dropped.exists_token
  simp only [translate, translateAll_append, translateAll, became, Rule.of?_label]
  cases translateAll before with
  | none => rfl
  | some ms =>
    cases translateAll after with
    | none => rfl
    | some ns =>
      simp only [Option.bind_eq_bind, Option.bind_some, Option.map_some, Option.pure_def,
        Morsel.before, Rule.translate_insert punctuation]

/-- A node that was lowered from a phrase shows what the reference says of it. -/
theorem LowersTo.shows {n : NodeRef} (h : q.LowersTo s n) (became : q.translate = some m) :
    ∃ b, m = .node b ∧ b.Shows s n := by
  obtain ⟨u, t, v, orderly, reads, runs, keeps⟩ := h
  obtain ⟨b, n', verdict, same, -, shows⟩ := verdict_of_runOn_lower reads orderly runs
  cases same
  have labelled : ∀ u ∈ q.parts, u.IsLabelled := by
    intro u hu
    have contractual := isContractual_of_translate q became u hu
    cases u with
    | rule label mark ps =>
      obtain ⟨r, same, -⟩ := contractual
      exact ⟨r, same⟩
    | _ => trivial
  have reference := translate_root.1 (translate_of_verdict (isLabelled_root labelled) verdict).1
  cases reference.symm.trans became
  exact ⟨b, rfl, shows.mono keeps⟩

/-- The reference makes of a tree that is spelled differently what entails what it makes of the
tree. -/
theorem Respells.translate (h : p.Respells s p') (became : p.translate = some m) :
    ∃ m', p'.translate = some m' ∧ m'.Entails s m := by
  induction h generalizing m with
  | lowered lowers =>
    obtain ⟨b, rfl, shows⟩ := lowers.shows became
    exact ⟨_, rfl, .node (Blueprint.entails_of_shows shows)⟩
  | grouped mark expression opening closing =>
    obtain ⟨b, rfl⟩ := expression.exists_node became
    obtain ⟨ms, first, dropped⟩ := exists_of_isDroppedBy opening
    obtain ⟨ns, last, dropped'⟩ := exists_of_isDroppedBy closing
    exact ⟨_, translate_group first dropped last dropped' became, .refl _⟩
  | inserted dropped => exact ⟨m, (translate_insert dropped).trans became, .refl m⟩
  | removed dropped => exact ⟨m, (translate_insert dropped).symm.trans became, .refl m⟩
  | within step ih =>
    obtain ⟨r, ms, c, rfl, below, made, rfl⟩ := translate_rule_eq_some.1 became
    obtain ⟨ns, ns', first, rest, rfl⟩ := translateAll_append_eq_some.1 below
    obtain ⟨m, ns'', inner, last, rfl⟩ := translateAll_cons_eq_some.1 rest
    obtain ⟨m', became', entails⟩ := ih inner
    have parts := translateAll_append_eq_some.2 ⟨ns, _, first,
      translateAll_cons_eq_some.2 ⟨m', ns'', became', last, rfl⟩, rfl⟩
    have entail : List.Forall₂ (Morsel.Entails s) (ns ++ m'.before ns'') (ns ++ m.before ns'') :=
      List.rel_append (List.forall₂_same.2 fun m _ => .refl m)
        (entails.before (List.forall₂_same.2 fun m _ => .refl m))
    obtain ⟨b, made', entails'⟩ := Rule.exists_translate entail made
    exact ⟨.node b, translate_rule_eq_some.2 ⟨r, _, b, rfl, parts, made', rfl⟩, .node entails'⟩

/-! ## Tame tokens -/

theorem partsOfAll_append (ps qs : List Phrase) :
    partsOfAll (ps ++ qs) = partsOfAll ps ++ partsOfAll qs := by
  induction ps with
  | nil => rfl
  | cons p ps ih => rw [List.cons_append, partsOfAll, partsOfAll, ih, List.append_assoc]

theorem IsDroppedBy.isTame {r : Rule} (h : q.IsDroppedBy i r) : ∀ u ∈ q.parts, u.IsTame i := by
  cases q with
  | token kind text mark =>
    refine List.forall_mem_singleton.2 fun m became => ?_
    cases (translate_of_unknown h.1).symm.trans became
    rw [walkToken, if_pos i.visitsTokens_mode, h.1]
  | _ => exact h.elim

theorem isTame_partsOfAll (h : ∀ u ∈ ps, ∀ w ∈ u.parts, w.IsTame i) :
    ∀ w ∈ partsOfAll ps, w.IsTame i := by
  induction ps with
  | nil => exact List.forall_mem_nil _
  | cons p ps ih =>
    obtain ⟨first, rest⟩ := List.forall_mem_cons.1 h
    exact List.forall_mem_append.2 ⟨first, ih rest⟩

/-- All tokens of a rule are tame if those of one part, and those of the parts before and after it,
are. -/
theorem isTame_rule :
    (∀ u ∈ (Phrase.rule label mark (before ++ q :: after)).parts, u.IsTame i) ↔
      (∀ u ∈ q.parts, u.IsTame i) ∧
        ∀ u ∈ (Phrase.rule label mark (before ++ after)).parts, u.IsTame i := by
  simp only [parts, partsOfAll_append, partsOfAll, List.forall_mem_cons, List.forall_mem_append]
  tauto

theorem Respells.isTame (h : p.Respells s p') (tame : ∀ u ∈ p.parts, u.IsTame s.interpreter) :
    ∀ u ∈ p'.parts, u.IsTame s.interpreter := by
  induction h with
  | lowered => exact List.forall_mem_singleton.2 trivial
  | grouped mark expression opening closing =>
    refine isTame_rule.2 ⟨tame, List.forall_mem_cons.2 ⟨trivial, isTame_partsOfAll fun u hu => ?_⟩⟩
    obtain hu | hu := List.mem_append.1 hu
    · exact (opening u hu).isTame
    · exact (closing u hu).isTame
  | inserted dropped => exact isTame_rule.2 ⟨dropped.isTame, tame⟩
  | removed dropped => exact (isTame_rule.1 tame).2
  | within step ih =>
    obtain ⟨inner, outer⟩ := isTame_rule.1 tame
    exact isTame_rule.2 ⟨ih inner, outer⟩

/-- All tokens of a tree are tame if those of its root are. -/
theorem isTame_root : (∀ u ∈ p.root.parts, u.IsTame i) ↔ ∀ u ∈ p.parts, u.IsTame i := by
  cases p with
  | token kind text mark => simp [root, parts, partsOfAll, IsTame]
  | _ => exact Iff.rfl

/-! ## Any number of steps -/

theorem translate_of_respells (h : ReflTransGen (Respells s) p p') (became : p.translate = some m) :
    ∃ m', p'.translate = some m' ∧ m'.Entails s m := by
  induction h with
  | refl => exact ⟨m, became, .refl m⟩
  | tail _ step ih =>
    obtain ⟨m', became', entails⟩ := ih
    obtain ⟨m'', became'', entails'⟩ := step.translate became'
    exact ⟨m'', became'', entails'.trans entails⟩

theorem isTame_of_respells (h : ReflTransGen (Respells s) p p')
    (tame : ∀ u ∈ p.parts, u.IsTame s.interpreter) : ∀ u ∈ p'.parts, u.IsTame s.interpreter := by
  induction h with
  | refl => exact tame
  | tail _ step ih => exact step.isTame ih

end Phrase

/-! ## Lowering -/

/-- Lowering a tree of rules of the grammar that is spelled differently, and not nested deeper than
the interpreter allows, ends with a node that shows the same expression with the same positions as
the node that the tree was lowered to. The two are found equal, unless a number in the expression is
no number or the comparison runs out of depth. A node is lowered to itself. -/
theorem runOn_lower_of_respells {p p' : Phrase} {s t u : Store} {v v' : Value} {n : NodeRef}
    (reads : p.Reads s v) (orderly : s.IsOrderly) (labelled : ∀ q ∈ p.parts, q.IsLabelled)
    (accepted : (lower v).runOn s = (.ok (.node n), t)) (keeps : t.KeepsPlaces u)
    (respells : ReflTransGen (Phrase.Respells u) p p') (reads' : p'.Reads u v')
    (orderly' : u.IsOrderly) (shallow : p'.root.height ≤ u.interpreter.treeDepth) :
    ∃ b n' t', p.translated = some b ∧ (lower v').runOn u = (.ok (.node n'), t') ∧
      b.Shows t' n ∧ b.Shows t' n' ∧
      (b.IsNumeric → t'.areEqual (.node n) (.node n') = .ok true ∨
        t'.areEqual (.node n) (.node n') = .error .tooDeep ∧
          t'.interpreter.valueDepth < 4 * b.height) ∧
      ∀ w, (lower (.node n)).runOn w = (.ok (.node n), w) := by
  obtain ⟨b, m, verdict, same, kept, shows⟩ := verdict_of_runOn_lower reads orderly accepted
  cases same
  have interpreters := keeps.interpreter.trans kept.interpreter
  obtain ⟨became, tame⟩ := Phrase.translate_of_verdict (Phrase.isLabelled_root labelled) verdict
  obtain ⟨m', became', entails⟩ :=
    Phrase.translate_of_respells respells (Phrase.translate_root.1 became)
  cases entails with
  | @node b' _ entails =>
    have tame' := Phrase.isTame_of_respells respells (interpreters ▸ Phrase.isTame_root.1 tame)
    have verdict' : p'.verdict u.interpreter = .ok b' := Phrase.verdict_of_translate
      (Phrase.translate_root.2 became') (Phrase.isTame_root.2 tame') shallow
    have lowers := lowers_of_reads reads' orderly'
    rw [verdict'] at lowers
    obtain ⟨n', t', runs, -, shows'⟩ := lowers
    obtain ⟨-, -, -, -, keeps', -⟩ := verdict_of_runOn_lower reads' orderly' runs
    have first := shows.mono (keeps.trans keeps')
    have second := entails.shows t' n' keeps' shows'
    refine ⟨b, n', t', ?_, runs, first, second, first.areEqual second.describes,
      runOn_lower_node n⟩
    rw [Phrase.translated, became]

theorem isLabelled_chainPhrase : ∀ q ∈ chainPhrase.parts, q.IsLabelled := by
  intro q hq
  simp only [chainPhrase, Phrase.parts, Phrase.partsOfAll, List.cons_append, List.nil_append,
    List.append_nil, List.mem_cons, List.not_mem_nil, or_false] at hq
  obtain rfl | rfl | rfl | rfl | rfl | rfl | rfl := hq
  · exact ⟨.group, rfl⟩
  · trivial
  · exact ⟨.chain .onFault, rfl⟩
  all_goals trivial

/-- The store with a new group of an opening parenthesis and a node. -/
def Store.regroup (t : Store) (n : NodeRef) : Store :=
  ((t.addToken ⟨"(", .str "LPAR" 1, .str "(" 2, []⟩).2.addTree
    ⟨.str "group" 3, .tuple [.token ⟨t.tokens.size⟩, .node n] 4, .null, []⟩).2

/-- What the new group reads as. -/
def Phrase.regrouped (n : NodeRef) (kind : NodeKind) : Phrase :=
  .rule "group" none [.token "LPAR" "(" none, .node n kind]

theorem Store.keepsPlaces_regroup (t : Store) (n : NodeRef) : t.KeepsPlaces (t.regroup n) := by
  refine ⟨⟨fun hn => ⟨hn, rfl⟩, fun he => ⟨he, rfl⟩, fun {r} hr => ⟨?_, ?_⟩⟩, rfl,
    fun hp => ⟨hp, rfl⟩⟩
  · show r.index < (t.tokens.push _).size
    rw [Array.size_push]
    exact Nat.lt_succ_of_lt hr
  · simp [regroup, addTree, addToken, Store.token, Array.getElem?_push, Nat.ne_of_lt hr]

theorem Phrase.reads_regrouped {t : Store} {n : NodeRef} (made : n.index < t.nodes.size) :
    (regrouped n ((t.regroup n).form n).kind).Reads (t.regroup n) (.tree ⟨t.trees.size⟩) := by
  have group : (t.regroup n).tree ⟨t.trees.size⟩ =
      ⟨.str "group" 3, .tuple [.token ⟨t.tokens.size⟩, .node n] 4, .null, []⟩ := by
    simp [Store.regroup, Store.tree, Store.addTree, Store.addToken]
  have parenthesis : (t.regroup n).token ⟨t.tokens.size⟩ = ⟨"(", .str "LPAR" 1, .str "(" 2, []⟩ := by
    simp [Store.regroup, Store.token, Store.addTree, Store.addToken]
  refine ⟨⟨t.trees.size⟩, [.token ⟨t.tokens.size⟩, .node n], rfl, ?_⟩
  rw [group]
  refine ⟨rfl, Store.marked_null _, rfl, ⟨⟨t.tokens.size⟩, 2, rfl, ?_⟩, ⟨rfl, made, rfl⟩, trivial⟩
  rw [parenthesis]
  refine ⟨rfl, rfl, rfl, ?_⟩
  simp only [Store.mark?, Store.line?, Store.said?, Store.attribute?, Store.attributes, parenthesis]
  rfl

/-- A tree is lowered, and what is lowered next is a new group with the node in it. -/
theorem runOn_lower_of_regrouped :
    ∃ (t t' : Store) (n n' : NodeRef), chainPhrase.Reads chainStore (.tree ⟨1⟩) ∧
      chainStore.IsOrderly ∧ (∀ q ∈ chainPhrase.parts, q.IsLabelled) ∧
      (lower (.tree ⟨1⟩)).runOn chainStore = (.ok (.node n), t) ∧
      t.KeepsPlaces (t.regroup n) ∧ (t.regroup n).IsOrderly ∧
      ReflTransGen (Phrase.Respells (t.regroup n)) chainPhrase
        (.regrouped n ((t.regroup n).form n).kind) ∧
      (lower (.tree ⟨t.trees.size⟩)).runOn (t.regroup n) = (.ok (.node n'), t') ∧
      t'.areEqual (.node n) (.node n') = .ok true := by
  have lowers := lowers_of_reads reads_chainPhrase isOrderly_chainStore
  rw [Phrase.verdict_of_isFree isFree_chainPhrase (by decide)] at lowers
  obtain ⟨n, t, runs, -, shows⟩ := lowers
  have keeps := t.keepsPlaces_regroup n
  have kept := keepsPlaces_runOn_lower reads_chainPhrase isOrderly_chainStore
  rw [runs] at kept
  have orderly : (t.regroup n).IsOrderly := by
    have none : t.additions.size = 0 := by
      have ends : t = ((lower (.tree ⟨1⟩)).runOn chainStore).2 := by rw [runs]
      rw [ends]
      decide +kernel
    have empty : (t.regroup n).additions = #[] := Array.eq_empty_of_size_eq_zero none
    intro a ha
    rw [empty] at ha
    exact absurd ha (Array.not_mem_empty a)
  have interpreters : (t.regroup n).interpreter = chainStore.interpreter := kept.interpreter
  have shallow : (Phrase.regrouped n ((t.regroup n).form n).kind).root.height ≤
      (t.regroup n).interpreter.treeDepth := by
    rw [interpreters]
    exact show 2 ≤ chainStore.interpreter.treeDepth by decide
  have lowers : chainPhrase.LowersTo (t.regroup n) n :=
    ⟨chainStore, t, _, isOrderly_chainStore, reads_chainPhrase, runs, keeps⟩
  have respells : ReflTransGen (Phrase.Respells (t.regroup n)) chainPhrase
      (.regrouped n ((t.regroup n).form n).kind) :=
    .tail (.single (.lowered lowers)) (@Phrase.Respells.grouped _ _ [_] [] none trivial
      (List.forall_mem_singleton.2 ⟨interpreters ▸ rfl, List.mem_cons_self⟩)
      (List.forall_mem_nil _))
  obtain ⟨b, n', t', became, runs', -, -, equal, -⟩ := runOn_lower_of_respells reads_chainPhrase
    isOrderly_chainStore isLabelled_chainPhrase runs keeps respells
    (Phrase.reads_regrouped shows.made) orderly shallow
  cases became
  refine ⟨t, t', n, n', reads_chainPhrase, isOrderly_chainStore, isLabelled_chainPhrase, runs, keeps,
    orderly, respells, runs', (equal ⟨trivial, nofun⟩).resolve_right fun deep => ?_⟩
  exact absurd deep.2 (Nat.not_lt_of_le (t'.interpreter.le_valueDepth (by decide)))

/-! ## What is not kept -/

/-- A numeral that spells no number, and a group of it. -/
def blankStore : Store :=
  { Store.empty with
    tokens := #[⟨"nan", .str "NUMBER" 1, .str "nan" 2, []⟩]
    trees := #[⟨.str "group" 3, .tuple [.token ⟨0⟩] 4, .null, []⟩]
    nextStamp := 5 }

/-- Whether a tree, and another one that is lowered after it, end with nodes that are found equal;
none if one of them is not accepted. -/
def Store.lowersAlike? (s : Store) (v v' : Value) : Option Bool :=
  match (lower v).runOn s with
  | (.error _, _) => none
  | (.ok w, t) =>
    match (lower v').runOn t with
    | (.error _, _) => none
    | (.ok w', u) => (u.areEqual w w').toOption

/-- As many groups as may be nested are accepted and one more is not, whatever the limit of the
interpreter is; and a numeral that spells no number differs from the one that is lowered from a
group of it. -/
theorem differs_of_respells :
    (∀ (i : Interpreter) (depth : Nat),
      let s := nestedStore { i with treeDepth := depth + 2 } (depth + 2)
      (Phrase.nested (depth + 1)).Reads s (.tree ⟨depth⟩) ∧
        (Phrase.nested (depth + 2)).Reads s (.tree ⟨depth + 1⟩) ∧
        (Phrase.nested (depth + 1)).Respells s (Phrase.nested (depth + 2)) ∧
        (∃ n t, (lower (.tree ⟨depth⟩)).runOn s = (.ok (.node n), t)) ∧
        ∃ e t, (lower (.tree ⟨depth + 1⟩)).runOn s = (.error e, t) ∧
          (t.fault e).kind = i.exhaustion) ∧
    (Phrase.token "NUMBER" "nan" none).Reads blankStore (.token ⟨0⟩) ∧
      (Phrase.rule "group" none [.token "NUMBER" "nan" none]).Reads blankStore (.tree ⟨0⟩) ∧
      (Phrase.token "NUMBER" "nan" none).Respells blankStore
        (.rule "group" none [.token "NUMBER" "nan" none]) ∧
      blankStore.lowersAlike? (.token ⟨0⟩) (.tree ⟨0⟩) = some false := by
  constructor
  · intro i depth s
    have orderly : s.IsOrderly := nofun
    have inner : (Phrase.nested (depth + 1)).Reads s (.tree ⟨depth⟩) :=
      reads_nested _ (Nat.lt_succ_of_lt (Nat.lt_succ_self depth))
    have outer : (Phrase.nested (depth + 2)).Reads s (.tree ⟨depth + 1⟩) :=
      reads_nested _ (Nat.lt_succ_self _)
    have accepted := lowers_of_reads inner orderly
    rw [Phrase.verdict_nested_of_le _ (Nat.le_refl _)] at accepted
    obtain ⟨n, t, runs, -⟩ := accepted
    have refused := lowers_of_reads outer orderly
    rw [Phrase.verdict_nested_of_lt _ (Nat.lt_succ_self _)] at refused
    obtain ⟨e, t', fails, -, -, kind⟩ := refused
    exact ⟨inner, outer, @Phrase.Respells.grouped _ _ [] [] none trivial (List.forall_mem_nil _)
      (List.forall_mem_nil _), ⟨n, t, runs⟩, e, t', fails, kind⟩
  · have numeral : (Phrase.token "NUMBER" "nan" none).Reads blankStore (.token ⟨0⟩) :=
      ⟨⟨0⟩, 2, rfl, rfl, rfl, rfl, rfl⟩
    exact ⟨numeral, ⟨⟨0⟩, [.token ⟨0⟩], rfl, rfl, Store.marked_null _, rfl, numeral, trivial⟩,
      @Phrase.Respells.grouped _ _ [] [] none ⟨.number, rfl⟩ (List.forall_mem_nil _)
        (List.forall_mem_nil _), by decide +kernel⟩

end Fallback
