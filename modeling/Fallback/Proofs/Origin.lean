import Fallback.Proofs.Phrase

/-!
Which phrase an expression comes from.

`Phrase.Owns` relates a phrase to the expressions that were made at its place: a token to its
literal or name, a call or a choice to its node, and a chain to every operator it was folded into. A
group, and the rule around a literal or a name, make nothing of their own. Every expression in what
a tree is translated to has an owner in the tree, and carries the marks of its owner.
-/
namespace Fallback

namespace Phrase

/-! ## Trees of the grammar -/

/-- The marks of a phrase. -/
def mark : Phrase → Mark
  | .rule _ mark _ => mark
  | .token _ _ mark => mark
  | _ => none

/-- The phrase is a rule of the grammar or a token of any kind. -/
def IsGrammatical : Phrase → Prop
  | .rule label _ _ => ∃ r : Rule, label = r.label
  | .token _ _ _ => True
  | _ => False

mutual

theorem parts_subset : ∀ (p : Phrase), ∀ q ∈ p.parts, ∀ u ∈ q.parts, u ∈ p.parts
  | .rule label mark ps, q, hq, u, hu => by
    obtain rfl | hq := List.mem_cons.1 hq
    · exact hu
    · exact mem_parts_of_mem (partsOfAll_subset ps q hq u hu)
  | .token _ _ _, q, hq, u, hu => by
    obtain rfl := List.mem_singleton.1 hq
    exact hu
  | .node _ _, q, hq, u, hu => by
    obtain rfl := List.mem_singleton.1 hq
    exact hu
  | .other _, q, hq, u, hu => by
    obtain rfl := List.mem_singleton.1 hq
    exact hu

theorem partsOfAll_subset : ∀ (ps : List Phrase), ∀ q ∈ partsOfAll ps, ∀ u ∈ q.parts,
    u ∈ partsOfAll ps
  | [], _, hq, _, _ => nomatch hq
  | p :: ps, q, hq, u, hu => by
    obtain hq | hq := List.mem_append.1 hq
    · exact List.mem_append_left _ (parts_subset p q hq u hu)
    · exact List.mem_append_right _ (partsOfAll_subset ps q hq u hu)

end

/-! ## Accepted trees are translated -/

/-- A phrase that is a rule is one of the grammar. -/
def IsLabelled : Phrase → Prop
  | .rule label _ _ => ∃ r : Rule, label = r.label
  | _ => True

theorem IsGrammatical.isLabelled {p : Phrase} (h : p.IsGrammatical) : p.IsLabelled := by
  cases p with
  | rule => exact h
  | _ => trivial

section Walks

variable (i : Interpreter)

/-- If the phrase is a token, and the reference accepts it, then so does the walk, and nothing
changes in the transformer. -/
def IsTame : Phrase → Prop
  | .token kind text mark => ∀ m, (Phrase.token kind text mark).translate = some m →
      walkToken i kind text mark i.mode = .ok (m, i.mode)
  | _ => True

variable {i}

/-- A token of any kind that is walked while tokens are visited is translated, unless it becomes
something that no rule accepts. -/
theorem translate_of_walkToken {kind text : String} {mark : Mark} {m : Morsel} {mode : Mode}
    (h : walkToken i kind text mark i.mode = .ok (m, mode)) (proper : m ≠ .other) :
    mode = i.mode ∧ (Phrase.token kind text mark).translate = some m := by
  rw [walkToken, if_pos i.visitsTokens_mode] at h
  rw [translate]
  cases meaning : Meaning.of i kind with
  | rule r =>
    rw [meaning] at h
    cases h
  | terminal t =>
    obtain rfl := Meaning.kind_of meaning
    simp only [meaning, Morsel.ofBlueprint?, Terminal.of?_kind] at h ⊢
    cases translated : t.translate text mark with
    | none =>
      rw [translated] at h
      cases h
    | some b =>
      rw [translated] at h
      cases h
      exact ⟨rfl, rfl⟩
  | operation op =>
    rw [Meaning.terminal_eq_none (i := i) (by simp [meaning])]
    simp only [meaning] at h
    cases effect : op.onToken i.mode text with
    | fails misuse =>
      rw [effect] at h
      cases h
    | handsBack =>
      rw [effect] at h
      cases h
      exact ⟨rfl, rfl⟩
    | setsVisits | yields | wraps =>
      rw [effect] at h
      cases h
      exact absurd rfl proper
  | unknown =>
    rw [Meaning.terminal_eq_none (i := i) (by simp [meaning])]
    rw [meaning] at h
    cases h
    exact ⟨rfl, rfl⟩

mutual

/-- What the walk accepts of a tree of rules of the grammar is translated, and all its tokens are
tame. -/
theorem translate_of_walk : ∀ (p : Phrase) (depth : Nat) {m : Morsel} {mode : Mode},
    (∀ q ∈ p.parts, q.IsLabelled) → p.walk i depth i.mode = .ok (m, mode) → m ≠ .other →
    mode = i.mode ∧ p.translate = some m ∧ ∀ q ∈ p.parts, q.IsTame i
  | .rule _ _ _, 0, _, _, _, h, _ => by cases h
  | .rule label mark ps, depth + 1, m, mode, labelled, h, proper => by
    obtain ⟨r, rfl⟩ := labelled _ (mem_parts_self _)
    obtain ⟨⟨morsels, mode'⟩, below, h⟩ := exists_ok_of_bind h
    simp only [walkRule, Meaning.of_label, Morsel.ofBlueprint?] at h
    cases translated : r.translate mark morsels with
    | none =>
      rw [translated] at h
      cases h
    | some b =>
      rw [translated] at h
      cases h
      have all : ∀ m ∈ morsels, m ≠ .other := by
        rintro _ hm rfl
        exact Rule.belongsTo_of_translate translated _ hm
      obtain ⟨visited, became, tame⟩ := translateAll_of_walkAll ps depth
        (fun q hq => labelled q (mem_parts_of_mem hq)) below all
      refine ⟨visited, ?_, List.forall_mem_cons.2 ⟨trivial, tame⟩⟩
      simp only [translate, became, Option.bind_eq_bind, Option.bind_some, Rule.of?_label,
        translated, Option.map_some]
  | .token _ _ _, 0, _, _, _, h, _ => by cases h
  | .token kind text mark, _ + 1, m, mode, _, h, proper => by
    obtain ⟨rfl, became⟩ := translate_of_walkToken h proper
    refine ⟨rfl, became, List.forall_mem_singleton.2 fun m' same => ?_⟩
    cases became.symm.trans same
    exact h
  | .node n kind, _, _, _, _, h, _ => by
    cases h
    exact ⟨rfl, rfl, List.forall_mem_singleton.2 trivial⟩
  | .other v, _, _, _, _, h, _ => by
    cases h
    exact ⟨rfl, rfl, List.forall_mem_singleton.2 trivial⟩

theorem translateAll_of_walkAll : ∀ (ps : List Phrase) (depth : Nat) {ms : List Morsel}
    {mode : Mode}, (∀ q ∈ partsOfAll ps, q.IsLabelled) →
    walkAll i ps depth i.mode = .ok (ms, mode) → (∀ m ∈ ms, m ≠ .other) →
    mode = i.mode ∧ translateAll ps = some ms ∧ ∀ q ∈ partsOfAll ps, q.IsTame i
  | [], _, _, _, _, h, _ => by
    cases h
    exact ⟨rfl, rfl, nofun⟩
  | p :: ps, depth, ms, mode, labelled, h, proper => by
    obtain ⟨⟨m, mode'⟩, first, h⟩ := exists_ok_of_bind h
    obtain ⟨⟨ms', mode''⟩, rest, h⟩ := exists_ok_of_bind h
    cases h
    have properFirst : m ≠ .other := by
      rintro rfl
      exact proper _ (List.mem_cons_self ..) rfl
    obtain ⟨rfl, became, tame⟩ := translate_of_walk p depth
      (fun q hq => labelled q (List.mem_append_left _ hq)) first properFirst
    obtain ⟨visited, becameRest, tameRest⟩ := translateAll_of_walkAll ps depth
      (fun q hq => labelled q (List.mem_append_right _ hq)) rest
      fun n hn => proper n (m.mem_before_of_mem hn)
    refine ⟨visited, ?_, List.forall_mem_append.2 ⟨tame, tameRest⟩⟩
    rw [translateAll, became, becameRest]
    rfl

end

/-- An accepted tree of rules of the grammar is translated, and all its tokens are tame. -/
theorem translate_of_verdict {p : Phrase} {b : Blueprint}
    (labelled : ∀ q ∈ p.root.parts, q.IsLabelled) (h : p.verdict i = .ok b) :
    p.root.translate = some (.node b) ∧ ∀ q ∈ p.root.parts, q.IsTame i := by
  obtain ⟨⟨m, mode⟩, walked, h⟩ := exists_ok_of_bind h
  cases m with
  | node b' =>
    cases h
    exact (translate_of_walk _ _ labelled walked Morsel.noConfusion).2
  | _ => cases h

/-- An accepted tree of the grammar is translated. -/
theorem translated_of_verdict {p : Phrase} {b : Blueprint}
    (grammatical : ∀ q ∈ p.root.parts, q.IsGrammatical) (h : p.verdict i = .ok b) :
    p.root.translate = some (.node b) :=
  (translate_of_verdict (fun q hq => (grammatical q hq).isLabelled) h).1

/-! ## Translated trees are accepted -/

mutual

/-- What is translated is walked to the same end, if its tokens are tame and it is not nested too
deep. -/
theorem walk_of_translate : ∀ (p : Phrase) (depth : Nat) {m : Morsel}, p.translate = some m →
    (∀ q ∈ p.parts, q.IsTame i) → p.height ≤ depth → p.walk i depth i.mode = .ok (m, i.mode)
  | .rule label mark ps, depth + 1, m, h, tame, shallow => by
    rw [translate] at h
    obtain ⟨morsels, below, h⟩ := Option.bind_eq_some_iff.1 h
    have walked := walkAll_of_translateAll ps depth below
      (fun q hq => tame q (mem_parts_of_mem hq)) (Nat.le_of_succ_le_succ shallow)
    rw [walk, walked]
    show walkRule i label mark morsels i.mode = _
    rcases rule : Rule.of? label with _ | r
    · rw [rule] at h
      cases h
    · rw [rule] at h
      obtain ⟨b, translated, rfl⟩ := Option.map_eq_some_iff.1 h
      rw [walkRule, ← Rule.label_of_of? rule, Meaning.of_label]
      simp only [translated]
      rfl
  | .token kind text mark, _ + 1, m, h, tame, _ => tame _ (mem_parts_self _) m h
  | .node n kind, _, _, h, _, _ => by
    cases h
    rfl
  | .other v, _, _, h, _, _ => by
    cases h
    rfl

theorem walkAll_of_translateAll : ∀ (ps : List Phrase) (depth : Nat) {ms : List Morsel},
    translateAll ps = some ms → (∀ q ∈ partsOfAll ps, q.IsTame i) → heightOfAll ps ≤ depth →
    walkAll i ps depth i.mode = .ok (ms, i.mode)
  | [], _, _, h, _, _ => by
    cases h
    rfl
  | p :: more, depth, ms, h, tame, shallow => by
    obtain ⟨m, first, h⟩ := Option.bind_eq_some_iff.1 h
    obtain ⟨ms', rest, h⟩ := Option.bind_eq_some_iff.1 h
    cases h
    rw [heightOfAll] at shallow
    have walked := walk_of_translate p depth first (fun q hq => tame q (List.mem_append_left _ hq))
      (by omega)
    have walkedRest := walkAll_of_translateAll more depth rest
      (fun q hq => tame q (List.mem_append_right _ hq)) (by omega)
    simp only [walkAll, walked, walkedRest, bind, Except.bind]
    rfl

end

/-- A tree that is translated is accepted, if its tokens are tame and it is not nested too deep. -/
theorem verdict_of_translate {p : Phrase} {b : Blueprint} (h : p.root.translate = some (.node b))
    (tame : ∀ q ∈ p.root.parts, q.IsTame i) (shallow : p.root.height ≤ i.treeDepth) :
    p.verdict i = .ok b := by
  rw [verdict, walk_of_translate _ _ h tame shallow]
  rfl

end Walks

/-! ## Owners -/

/-- The expression was made at the place of the phrase: it is what a token stands for, a call, a
choice, or one of the operators of a chain. -/
inductive Owns : Phrase → Blueprint → Prop
  | token {kind text : String} {mark : Mark} {b : Blueprint}
      (became : (Phrase.token kind text mark).translate = some (.node b)) :
      Owns (.token kind text mark) b
  | call {mark : Mark} {ps : List Phrase} {morsels : List Morsel} {callee : Blueprint}
      {args : List Blueprint} (below : translateAll ps = some morsels)
      (operands : Rule.call.operands morsels = some (callee :: args)) :
      Owns (.rule Rule.call.label mark ps) (.call mark callee args)
  | chain {op : Operator} {mark : Mark} {ps : List Phrase} {morsels : List Morsel}
      (front : List Blueprint) {more : List Blueprint} {a a' : Blueprint}
      (below : translateAll ps = some morsels)
      (operands : (Rule.chain op).operands morsels = some (front ++ a :: a' :: more)) :
      Owns (.rule (Rule.chain op).label mark ps)
        (.fallback mark op a (Blueprint.fold mark op a' more))
  | ternary {mark : Mark} {ps : List Phrase} {morsels : List Morsel} {c t e : Blueprint}
      (below : translateAll ps = some morsels)
      (operands : Rule.ternary.operands morsels = some [c, t, e]) :
      Owns (.rule Rule.ternary.label mark ps) (.ternary mark c t e)

theorem mem_of_operands {r : Rule} {morsels : List Morsel} {bs : List Blueprint}
    (h : r.operands morsels = some bs) {b : Blueprint} (hb : b ∈ bs) : .node b ∈ morsels := by
  induction morsels generalizing bs with
  | nil =>
    cases h
    cases hb
  | cons m more ih =>
    cases m with
    | token text =>
      rw [Rule.operands] at h
      split at h
      · exact List.mem_cons_of_mem _ (ih h hb)
      · cases h
    | node b' =>
      obtain ⟨bs', rest, rfl⟩ := Option.map_eq_some_iff.1 h
      obtain rfl | hb := List.mem_cons.1 hb
      · exact List.mem_cons_self ..
      · exact List.mem_cons_of_mem _ (ih rest hb)
    | other | dropped => cases h

/-- Whatever phrases became is what one of them became. -/
theorem exists_of_translateAll {ps : List Phrase} {morsels : List Morsel}
    (below : translateAll ps = some morsels) {m : Morsel} (hm : m ∈ morsels) :
    ∃ q ∈ ps, q.translate = some m := by
  induction ps generalizing morsels with
  | nil =>
    cases below
    cases hm
  | cons p ps ih =>
    obtain ⟨m', first, below⟩ := Option.bind_eq_some_iff.1 below
    obtain ⟨morsels', rest, below⟩ := Option.bind_eq_some_iff.1 below
    cases below
    obtain rfl | hm := Morsel.eq_or_mem_of_mem_before hm
    · exact ⟨p, List.mem_cons_self .., first⟩
    · obtain ⟨q, hq, became⟩ := ih rest hm
      exact ⟨q, List.mem_cons_of_mem _ hq, became⟩

/-- Every operand of a rule is what a part of it became. -/
theorem exists_of_operands {r : Rule} {ps : List Phrase} {morsels : List Morsel}
    {bs : List Blueprint} (below : translateAll ps = some morsels)
    (operands : r.operands morsels = some bs) {b : Blueprint} (hb : b ∈ bs) :
    ∃ q ∈ ps, q.translate = some (.node b) :=
  exists_of_translateAll below (mem_of_operands operands hb)

mutual

/-- What a tree of the grammar is translated to has an owner in it. -/
theorem exists_owns : ∀ (p : Phrase) {b : Blueprint}, (∀ q ∈ p.parts, q.IsGrammatical) →
    p.translate = some (.node b) → ∃ u ∈ p.parts, u.Owns b
  | .token kind text mark, b, _, h => ⟨_, mem_parts_self _, .token h⟩
  | .node n kind, _, grammatical, _ => (grammatical _ (mem_parts_self _)).elim
  | .other v, _, grammatical, _ => (grammatical _ (mem_parts_self _)).elim
  | .rule label mark ps, b, grammatical, h => by
    obtain ⟨r, rfl⟩ := grammatical _ (mem_parts_self _)
    obtain ⟨morsels, below, h⟩ := Option.bind_eq_some_iff.1 h
    simp only [Rule.of?_label] at h
    obtain ⟨b', translated, same⟩ := Option.map_eq_some_iff.1 h
    cases same
    have inner {q : Phrase} (hq : q ∈ ps) (became : q.translate = some (.node b)) :
        ∃ u ∈ (Phrase.rule r.label mark ps).parts, u.Owns b := by
      obtain ⟨u, hu, owns⟩ :=
        exists_owns_of_mem ps (fun q hq => grammatical q (mem_parts_of_mem hq)) hq became
      exact ⟨u, mem_parts_of_mem hu, owns⟩
    have only {kind : NodeKind} (h : Rule.only kind morsels = some b) : .node b ∈ morsels := by
      rw [Rule.only.eq_def] at h
      split at h
      · split at h
        · cases h
          exact List.mem_cons_self ..
        · cases h
      · cases h
    have own (h : (r.operands morsels).bind (r.join mark) = some b) :
        ∃ u ∈ (Phrase.rule r.label mark ps).parts, u.Owns b := by
      obtain ⟨bs, operands, joined⟩ := Option.bind_eq_some_iff.1 h
      rw [Rule.join.eq_def] at joined
      split at joined
      · cases joined
        obtain ⟨q, hq, became⟩ := exists_of_operands below operands (List.mem_cons_self ..)
        exact inner hq became
      · cases joined
        exact ⟨_, mem_parts_self _, .call below operands⟩
      · cases joined
        exact ⟨_, mem_parts_self _, .chain [] below operands⟩
      · cases joined
        exact ⟨_, mem_parts_self _, .ternary below operands⟩
      · cases joined
    cases r with
    | literal =>
      obtain ⟨q, hq, became⟩ := exists_of_translateAll below (only translated)
      exact inner hq became
    | var =>
      obtain ⟨q, hq, became⟩ := exists_of_translateAll below (only translated)
      exact inner hq became
    | group => exact own translated
    | call => exact own translated
    | chain op => exact own translated
    | ternary => exact own translated

theorem exists_owns_of_mem : ∀ (ps : List Phrase) {q : Phrase} {b : Blueprint},
    (∀ q ∈ partsOfAll ps, q.IsGrammatical) → q ∈ ps → q.translate = some (.node b) →
    ∃ u ∈ partsOfAll ps, u.Owns b
  | p :: ps, q, b, grammatical, hq, h => by
    by_cases here : q = p
    · obtain ⟨u, hu, owns⟩ :=
        exists_owns p (fun q hq => grammatical q (List.mem_append_left _ hq)) (here ▸ h)
      exact ⟨u, List.mem_append_left _ hu, owns⟩
    · have there := (List.mem_cons.1 hq).resolve_left here
      obtain ⟨u, hu, owns⟩ :=
        exists_owns_of_mem ps (fun q hq => grammatical q (List.mem_append_right _ hq)) there h
      exact ⟨u, List.mem_append_right _ hu, owns⟩

end

/-- A token becomes a literal, or a name that is not empty. -/
theorem cases_of_token {kind text : String} {mark : Mark} {b : Blueprint}
    (became : (Phrase.token kind text mark).translate = some (.node b)) :
    (∃ c, b = .literal mark c) ∨
      (kind = Terminal.name.kind ∧ text ≠ "" ∧ b = .reference mark text) := by
  rw [translate] at became
  cases terminal : Terminal.of? kind with
  | some t =>
    rw [terminal] at became
    obtain ⟨b', translated, same⟩ := Option.map_eq_some_iff.1 became
    cases same
    cases t with
    | number =>
      obtain ⟨n, -, rfl⟩ := Option.map_eq_some_iff.1 translated
      exact .inl ⟨_, rfl⟩
    | name =>
      rw [Terminal.translate] at translated
      split at translated
      · cases translated
      · next filled =>
        cases translated
        exact .inr ⟨(Terminal.kind_of_of? terminal).symm, filled, rfl⟩
    | _ =>
      cases translated
      exact .inl ⟨_, rfl⟩
  | none =>
    rw [terminal] at became
    cases became

namespace Owns

variable {u : Phrase} {mark : Mark}

theorem reference {name : String} (owns : u.Owns (.reference mark name)) :
    u = .token Terminal.name.kind name mark ∧ name ≠ "" := by
  cases owns with
  | token became =>
    obtain ⟨c, same⟩ | ⟨rfl, filled, same⟩ := cases_of_token became
    · cases same
    · cases same
      exact ⟨rfl, filled⟩

/-- Nothing but a phrase of its own kind owns an expression that has operands. -/
theorem label {b : Blueprint} (owns : u.Owns b) :
    match b with
    | .call mark _ _ => ∃ ps, u = .rule Rule.call.label mark ps
    | .fallback mark op _ _ => ∃ ps, u = .rule (Rule.chain op).label mark ps
    | .ternary mark _ _ _ => ∃ ps, u = .rule Rule.ternary.label mark ps
    | .node _ _ => False
    | _ => True := by
  cases owns with
  | token became =>
    obtain ⟨c, rfl⟩ | ⟨-, -, rfl⟩ := cases_of_token became <;> trivial
  | call below operands => exact ⟨_, rfl⟩
  | chain front below operands => exact ⟨_, rfl⟩
  | ternary below operands => exact ⟨_, rfl⟩

/-- A group owns nothing. -/
theorem not_group {ps : List Phrase} {b : Blueprint} :
    ¬(Phrase.rule Rule.group.label mark ps).Owns b := by
  intro owns
  generalize same : Phrase.rule Rule.group.label mark ps = u at owns
  cases owns with
  | token became => cases same
  | call below operands => simp [Rule.label] at same
  | @chain op => cases op <;> simp [Rule.label] at same
  | ternary below operands => simp [Rule.label] at same

/-- A node that was made before is owned by nothing. -/
theorem ne_node {b : Blueprint} (owns : u.Owns b) (n : NodeRef) (kind : NodeKind) :
    b ≠ .node n kind := by
  rintro rfl
  exact owns.label

end Owns

/-- What stands right below an expression has an owner in the owner of the expression. -/
theorem Owns.operand {u : Phrase} {b c : Blueprint} (owns : u.Owns b)
    (grammatical : ∀ q ∈ u.parts, q.IsGrammatical) (hc : c ∈ b.operands) :
    ∃ u' ∈ u.parts, u'.Owns c := by
  have inner {label : String} {mark : Mark} {ps : List Phrase} {r : Rule}
      {morsels : List Morsel} {bs : List Blueprint}
      (grammatical : ∀ q ∈ (Phrase.rule label mark ps).parts, q.IsGrammatical)
      (below : translateAll ps = some morsels) (operands : r.operands morsels = some bs)
      (hc : c ∈ bs) : ∃ u' ∈ (Phrase.rule label mark ps).parts, u'.Owns c := by
    obtain ⟨q, hq, became⟩ := exists_of_operands below operands hc
    obtain ⟨u', hu, owns⟩ :=
      exists_owns_of_mem ps (fun q hq => grammatical q (mem_parts_of_mem hq)) hq became
    exact ⟨u', mem_parts_of_mem hu, owns⟩
  cases owns with
  | token became =>
    obtain ⟨_, rfl⟩ | ⟨-, -, rfl⟩ := cases_of_token became <;> cases hc
  | call below operands => exact inner grammatical below operands hc
  | ternary below operands => exact inner grammatical below operands hc
  | @chain op mark ps morsels front more a a' below operands =>
    simp only [Blueprint.operands, List.mem_cons, List.not_mem_nil, or_false] at hc
    obtain rfl | rfl := hc
    · exact inner grammatical below operands (by simp)
    · -- the right operand is the last one, or the operator that the rest was folded into
      cases more with
      | nil => exact inner grammatical below operands (by simp [Blueprint.fold])
      | cons a'' more =>
        refine ⟨_, mem_parts_self _, .chain (front ++ [a]) below ?_⟩
        rw [List.append_assoc]
        exact operands

end Phrase

end Fallback
