import Fallback.Proofs.Numeral
import Fallback.Proofs.Respelling

/-!
Writing expressions down.

`Blueprint.phrase` writes an expression down as a parse tree, so that the reference reads the
expression again (`Blueprint.translate_phrase`). An operand goes right below the rule that it is an
operand of, and no group is ever needed, because a rule in a rule is read on its own. Only the right
operand of an operator that is of the same kind is not written as a rule: its parts go on with the
chain.

That is done for the sake of the nesting, which the recursion of the transformation limits. A chain
is one rule, however long it is, and no tree of the grammar that is read as the expression is lower
than the one that is written here (`Blueprint.nesting_le_height`).
-/
namespace Fallback

/-! ## Expressions as trees -/

/-- The phrases right below a phrase. -/
def Phrase.children : Phrase → List Phrase
  | .rule _ _ ps => ps
  | _ => []

namespace Blueprint

mutual

/-- The expression can be written down: its constants can, and its names are not empty. -/
def IsWritable : Blueprint → Prop
  | .literal _ c => c.IsWritable
  | .reference _ name => name ≠ ""
  | .call _ callee args => callee.IsWritable ∧ AreWritable args
  | .fallback _ _ lhs rhs => lhs.IsWritable ∧ rhs.IsWritable
  | .ternary _ condition thenBranch elseBranch =>
    condition.IsWritable ∧ thenBranch.IsWritable ∧ elseBranch.IsWritable
  | .node _ _ => False

/-- The expressions can be written down. -/
def AreWritable : List Blueprint → Prop
  | [] => True
  | b :: bs => b.IsWritable ∧ AreWritable bs

end

mutual

/-- The expression as a parse tree without marks. -/
def phrase : Blueprint → Phrase
  | .literal _ c => .token c.spelling.1.kind c.spelling.2 none
  | .reference _ name => .token Terminal.name.kind name none
  | .call _ callee args => .rule Rule.call.label none (callee.phrase :: phrases args)
  | .fallback _ op lhs rhs =>
    .rule (Rule.chain op).label none
      (lhs.phrase :: if rhs.kind = .fallback op then rhs.phrase.children else [rhs.phrase])
  | .ternary _ condition thenBranch elseBranch =>
    .rule Rule.ternary.label none [condition.phrase, thenBranch.phrase, elseBranch.phrase]
  | .node n kind => .node n kind

/-- The expressions as parse trees without marks. -/
def phrases : List Blueprint → List Phrase
  | [] => []
  | b :: bs => b.phrase :: phrases bs

end

mutual

/-- The number of rules and tokens inside each other that it takes to write the expression down. A
right operand that is of the kind of its operator belongs to the same rule. -/
def nesting : Blueprint → Nat
  | .literal _ _ | .reference _ _ => 1
  | .node _ _ => 0
  | .call _ callee args => max callee.nesting (nestingOfAll args) + 1
  | .fallback _ op lhs rhs =>
    max (lhs.nesting + 1) (if rhs.kind = .fallback op then rhs.nesting else rhs.nesting + 1)
  | .ternary _ condition thenBranch elseBranch =>
    max condition.nesting (max thenBranch.nesting elseBranch.nesting) + 1

/-- The nesting of the expression of a list that takes most of it. -/
def nestingOfAll : List Blueprint → Nat
  | [] => 0
  | b :: bs => max b.nesting (nestingOfAll bs)

end

variable {b l r : Blueprint} {bs : List Blueprint} {mark : Mark} {op : Operator}

/-- Only an operator that was not made before is of the kind of an operator. -/
theorem exists_of_kind (kind : b.kind = .fallback op) (writable : b.IsWritable) :
    ∃ mark l r, b = .fallback mark op l r := by
  cases b with
  | fallback mark op' l r =>
    cases kind
    exact ⟨mark, l, r, rfl⟩
  | node n k => exact writable.elim
  | _ => cases kind

/-! ## Reading a written expression -/

/-- What stands at the end of a chain is read as operands that are folded to the expression, if the
expression is read on its own. -/
theorem exists_links (writable : b.IsWritable)
    (became : b.phrase.translate = some (.node b.unmarked)) (op : Operator) :
    ∃ ms c cs, Phrase.translateAll
        (if b.kind = .fallback op then b.phrase.children else [b.phrase]) = some ms ∧
      (Rule.chain op).operands ms = some (c :: cs) ∧ fold none op c cs = b.unmarked := by
  by_cases kind : b.kind = .fallback op
  · rw [if_pos kind]
    obtain ⟨mark, l, r, rfl⟩ := exists_of_kind kind writable
    obtain ⟨rule, ms, c, label, below, made, same⟩ := Phrase.translate_rule_eq_some.1 became
    obtain rfl := Rule.eq_of_label label
    obtain ⟨cs, operands, joined⟩ := Option.bind_eq_some_iff.1 made
    cases same
    match cs, joined with
    | c :: c' :: cs, joined => exact ⟨ms, c, c' :: cs, below, operands, Option.some.inj joined⟩
  · rw [if_neg kind]
    refine ⟨[.node b.unmarked], b.unmarked, [], ?_, rfl, rfl⟩
    exact Phrase.translateAll_cons_eq_some.2 ⟨_, [], became, rfl, rfl⟩

theorem operands_map_node (r : Rule) (bs : List Blueprint) :
    r.operands (bs.map .node) = some bs := by
  induction bs with
  | nil => rfl
  | cons b bs ih => rw [List.map_cons, Rule.operands, ih, Option.map_some]

mutual

/-- An expression that is written down is read again. -/
theorem translate_phrase : ∀ {b : Blueprint}, b.IsWritable →
    b.phrase.translate = some (.node b.unmarked)
  | .literal _ c, writable => by
    rw [phrase, Phrase.translate, Terminal.of?_kind]
    simp only [Constant.translate_spelling writable, Option.map_some, unmarked]
  | .reference _ name, filled => by
    rw [phrase, Phrase.translate, Terminal.of?_kind]
    simp only [Terminal.translate, if_neg filled, Option.map_some, unmarked]
  | .call _ callee args, ⟨first, rest⟩ => by
    have below := Phrase.translateAll_cons_eq_some.2
      ⟨_, _, translate_phrase first, translateAll_phrases rest, rfl⟩
    refine Phrase.translate_rule_eq_some.2 ⟨.call, _, _, rfl, below, ?_, rfl⟩
    show (Rule.call.operands _).bind (Rule.call.join none) = _
    rw [Morsel.before_node, Rule.operands, operands_map_node]
    rfl
  | .fallback _ op lhs rhs, ⟨first, second⟩ => by
    obtain ⟨ms, c, cs, links, operands, folded⟩ := exists_links second (translate_phrase second) op
    have below := Phrase.translateAll_cons_eq_some.2
      ⟨_, ms, translate_phrase first, links, rfl⟩
    refine Phrase.translate_rule_eq_some.2 ⟨.chain op, _, _, rfl, below, ?_, rfl⟩
    show ((Rule.chain op).operands _).bind ((Rule.chain op).join none) = _
    rw [Morsel.before_node, Rule.operands, operands]
    exact congrArg (fun r => some (Blueprint.fallback none op lhs.unmarked r)) folded
  | .ternary _ condition thenBranch elseBranch, ⟨first, second, third⟩ => by
    have below : Phrase.translateAll [condition.phrase, thenBranch.phrase, elseBranch.phrase] =
        some [.node condition.unmarked, .node thenBranch.unmarked, .node elseBranch.unmarked] := by
      simp only [Phrase.translateAll, translate_phrase first, translate_phrase second,
        translate_phrase third]
      rfl
    exact Phrase.translate_rule_eq_some.2 ⟨.ternary, _, _, rfl, below, rfl, rfl⟩

theorem translateAll_phrases : ∀ {bs : List Blueprint}, AreWritable bs →
    Phrase.translateAll (phrases bs) = some ((unmarkedAll bs).map .node)
  | [], _ => rfl
  | _ :: _, ⟨first, rest⟩ =>
    Phrase.translateAll_cons_eq_some.2
      ⟨_, _, translate_phrase first, translateAll_phrases rest, rfl⟩

end

/-! ## Parts of a written expression -/

end Blueprint

namespace Phrase

/-- The phrase is a rule of the grammar, or a token that is a literal or a name, and it has no
marks. -/
def IsBare : Phrase → Prop
  | .rule label mark _ => (∃ r : Rule, label = r.label) ∧ mark = none
  | .token kind _ mark => (∃ t : Terminal, kind = t.kind) ∧ mark = none
  | _ => False

theorem IsBare.isTame (i : Interpreter) {p : Phrase} (bare : p.IsBare) : p.IsTame i := by
  cases p with
  | token kind text mark =>
    obtain ⟨t, rfl⟩ := bare.1
    intro m became
    simp only [translate, Terminal.of?_kind] at became
    obtain ⟨b, made, rfl⟩ := Option.map_eq_some_iff.1 became
    rw [walkToken, if_pos i.visitsTokens_mode, Meaning.of_kind]
    exact congrArg (Morsel.ofBlueprint? i.mode) made
  | _ => trivial

theorem mem_parts_of_mem_children {p q : Phrase} (h : q ∈ partsOfAll p.children) : q ∈ p.parts := by
  cases p with
  | rule => exact mem_parts_of_mem h
  | _ => cases h

/-- A rule or a token is one higher than the highest phrase right below it. -/
theorem height_eq {p : Phrase} (bare : p.IsBare) : p.height = heightOfAll p.children + 1 := by
  cases p with
  | rule | token => rfl
  | _ => exact bare.elim

end Phrase

namespace Blueprint

variable {b c l r : Blueprint} {bs : List Blueprint} {mark : Mark} {op : Operator} {h : Nat}
  {s : Store}

mutual

theorem isBare_phrase : ∀ {b : Blueprint}, b.IsWritable → ∀ q ∈ b.phrase.parts, q.IsBare
  | .literal _ _, _ => List.forall_mem_singleton.2 ⟨⟨_, rfl⟩, rfl⟩
  | .reference _ _, _ => List.forall_mem_singleton.2 ⟨⟨_, rfl⟩, rfl⟩
  | .call _ _ _, ⟨first, rest⟩ =>
    List.forall_mem_cons.2 ⟨⟨⟨.call, rfl⟩, rfl⟩,
      List.forall_mem_append.2 ⟨isBare_phrase first, isBare_phrases rest⟩⟩
  | .fallback _ op _ rhs, ⟨first, second⟩ => by
    refine List.forall_mem_cons.2 ⟨⟨⟨.chain op, rfl⟩, rfl⟩,
      List.forall_mem_append.2 ⟨isBare_phrase first, fun q hq => isBare_phrase second q ?_⟩⟩
    split at hq
    · exact Phrase.mem_parts_of_mem_children hq
    · rwa [Phrase.partsOfAll, Phrase.partsOfAll, List.append_nil] at hq
  | .ternary _ _ _ _, ⟨first, second, third⟩ =>
    List.forall_mem_cons.2 ⟨⟨⟨.ternary, rfl⟩, rfl⟩,
      List.forall_mem_append.2 ⟨isBare_phrase first,
        List.forall_mem_append.2 ⟨isBare_phrase second,
          List.forall_mem_append.2 ⟨isBare_phrase third, List.forall_mem_nil _⟩⟩⟩⟩

theorem isBare_phrases : ∀ {bs : List Blueprint}, AreWritable bs →
    ∀ q ∈ Phrase.partsOfAll (phrases bs), q.IsBare
  | [], _ => List.forall_mem_nil _
  | _ :: _, ⟨first, rest⟩ =>
    List.forall_mem_append.2 ⟨isBare_phrase first, isBare_phrases rest⟩

end

mutual

/-- The nesting of an expression is the height of the tree that it is written as. -/
theorem height_phrase : ∀ {b : Blueprint}, b.IsWritable → b.phrase.height = b.nesting
  | .literal _ _, _ => rfl
  | .reference _ _, _ => rfl
  | .call _ callee args, ⟨first, rest⟩ => by
    rw [phrase, Phrase.height, Phrase.heightOfAll, height_phrase first, heightOfAll_phrases rest,
      nesting]
  | .fallback _ op lhs rhs, ⟨first, second⟩ => by
    rw [phrase, Phrase.height, Phrase.heightOfAll, height_phrase first, nesting,
      ← height_phrase second, ← Nat.add_max_add_right]
    congr 1
    split
    · exact (Phrase.height_eq (isBare_phrase second _ (Phrase.mem_parts_self _))).symm
    · rw [Phrase.heightOfAll, Phrase.heightOfAll, Nat.max_zero]
  | .ternary _ condition thenBranch elseBranch, ⟨first, second, third⟩ => by
    simp only [phrase, Phrase.height, Phrase.heightOfAll, height_phrase first,
      height_phrase second, height_phrase third, nesting, Nat.max_zero]

theorem heightOfAll_phrases : ∀ {bs : List Blueprint}, AreWritable bs →
    Phrase.heightOfAll (phrases bs) = nestingOfAll bs
  | [], _ => rfl
  | b :: bs, ⟨first, rest⟩ => by
    rw [phrases, Phrase.heightOfAll, nestingOfAll, height_phrase first, heightOfAll_phrases rest]

end

/-! ## No tree is lower -/

mutual

/-- Nothing in the expression was made before. -/
def IsExplicit : Blueprint → Prop
  | .literal _ _ | .reference _ _ => True
  | .call _ callee args => callee.IsExplicit ∧ AreExplicit args
  | .fallback _ _ lhs rhs => lhs.IsExplicit ∧ rhs.IsExplicit
  | .ternary _ condition thenBranch elseBranch =>
    condition.IsExplicit ∧ thenBranch.IsExplicit ∧ elseBranch.IsExplicit
  | .node _ _ => False

/-- Nothing in the expressions was made before. -/
def AreExplicit : List Blueprint → Prop
  | [] => True
  | b :: bs => b.IsExplicit ∧ AreExplicit bs

end

/-- Nothing in the expression was made before, and it takes so much nesting at most. -/
structure Fits (h : Nat) (b : Blueprint) : Prop where
  explicit : b.IsExplicit
  nesting_le : b.nesting ≤ h

theorem fits_args (all : ∀ b ∈ bs, b.Fits h) : AreExplicit bs ∧ nestingOfAll bs ≤ h := by
  induction bs with
  | nil => exact ⟨trivial, Nat.zero_le h⟩
  | cons b bs ih =>
    obtain ⟨first, rest⟩ := List.forall_mem_cons.1 all
    obtain ⟨explicit, bounded⟩ := ih rest
    exact ⟨⟨first.explicit, explicit⟩, Nat.max_le.2 ⟨first.nesting_le, bounded⟩⟩

/-- An operator fits one level higher than its operands, and the right one may be as high if it is
of the same kind. -/
theorem Fits.fallback (lhs : l.Fits h) (rhs : r.Fits h ∨ r.kind = .fallback op ∧ r.Fits (h + 1)) :
    (Blueprint.fallback mark op l r).Fits (h + 1) := by
  obtain fits | ⟨kind, fits⟩ := rhs
  · refine ⟨⟨lhs.explicit, fits.explicit⟩, Nat.max_le.2 ⟨Nat.succ_le_succ lhs.nesting_le, ?_⟩⟩
    have bounded := fits.nesting_le
    split <;> omega
  · refine ⟨⟨lhs.explicit, fits.explicit⟩, Nat.max_le.2 ⟨Nat.succ_le_succ lhs.nesting_le, ?_⟩⟩
    rw [if_pos kind]
    exact fits.nesting_le

theorem Fits.fold (first : b.Fits h) (rest : ∀ c ∈ bs, c.Fits h) :
    (fold mark op b bs).Fits h ∨
      (fold mark op b bs).kind = .fallback op ∧ (fold mark op b bs).Fits (h + 1) := by
  induction bs generalizing b with
  | nil => exact .inl first
  | cons c cs ih =>
    obtain ⟨next, rest⟩ := List.forall_mem_cons.1 rest
    exact .inr ⟨rfl, first.fallback (ih next rest)⟩

end Blueprint

namespace Rule

variable {r : Rule} {mark : Mark} {ms : List Morsel} {bs : List Blueprint} {c : Blueprint} {h : Nat}

theorem fits_join (all : ∀ b ∈ bs, b.Fits h) (joined : r.join mark bs = some c) :
    c.Fits (h + 1) := by
  rw [join.eq_def] at joined
  split at joined
  · cases joined
    have fits := all c (List.mem_cons_self ..)
    exact ⟨fits.explicit, Nat.le_succ_of_le fits.nesting_le⟩
  · cases joined
    obtain ⟨first, rest⟩ := List.forall_mem_cons.1 all
    obtain ⟨explicit, bounded⟩ := Blueprint.fits_args rest
    exact ⟨⟨first.explicit, explicit⟩, Nat.succ_le_succ (Nat.max_le.2 ⟨first.nesting_le, bounded⟩)⟩
  · cases joined
    obtain ⟨first, rest⟩ := List.forall_mem_cons.1 all
    obtain ⟨second, rest⟩ := List.forall_mem_cons.1 rest
    exact first.fallback (second.fold rest)
  · cases joined
    simp only [List.forall_mem_cons] at all
    obtain ⟨first, second, third, -⟩ := all
    exact ⟨⟨first.explicit, second.explicit, third.explicit⟩, Nat.succ_le_succ
      (Nat.max_le.2 ⟨first.nesting_le, Nat.max_le.2 ⟨second.nesting_le, third.nesting_le⟩⟩)⟩
  · cases joined

/-- What a rule makes fits one level higher than what it is made of. -/
theorem fits_translate (all : ∀ b, .node b ∈ ms → b.Fits h) (made : r.translate mark ms = some c) :
    c.Fits (h + 1) := by
  have only {kind : NodeKind} (made : only kind ms = some c) : c.Fits (h + 1) := by
    rw [Rule.only.eq_def] at made
    split at made
    · split at made
      · cases made
        have fits := all c (List.mem_cons_self ..)
        exact ⟨fits.explicit, Nat.le_succ_of_le fits.nesting_le⟩
      · cases made
    · cases made
  have gathered (made : (r.operands ms).bind (r.join mark) = some c) : c.Fits (h + 1) := by
    obtain ⟨bs, operands, joined⟩ := Option.bind_eq_some_iff.1 made
    exact fits_join (fun b hb => all b (Phrase.mem_of_operands operands hb)) joined
  cases r with
  | literal => exact only made
  | var => exact only made
  | group => exact gathered made
  | call => exact gathered made
  | chain op => exact gathered made
  | ternary => exact gathered made

end Rule

namespace Phrase

mutual

/-- What a tree of the grammar is read as takes no more nesting than the tree is high. -/
theorem fits_height : ∀ {p : Phrase} {c : Blueprint}, (∀ q ∈ p.parts, q.IsGrammatical) →
    p.translate = some (.node c) → c.Fits p.height
  | .rule _ _ _, _, grammatical, became => by
    obtain ⟨r, ms, c, rfl, below, made, same⟩ := translate_rule_eq_some.1 became
    cases same
    exact Rule.fits_translate
      (fits_heightOfAll (fun q hq => grammatical q (mem_parts_of_mem hq)) below) made
  | .token _ _ _, _, _, became => by
    obtain ⟨_, rfl⟩ | ⟨-, -, rfl⟩ := cases_of_token became
    · exact ⟨trivial, Nat.le_refl _⟩
    · exact ⟨trivial, Nat.le_refl _⟩
  | .node _ _, _, grammatical, _ => (grammatical _ (mem_parts_self _)).elim
  | .other _, _, grammatical, _ => (grammatical _ (mem_parts_self _)).elim

theorem fits_heightOfAll : ∀ {ps : List Phrase} {ms : List Morsel},
    (∀ q ∈ partsOfAll ps, q.IsGrammatical) → translateAll ps = some ms →
    ∀ b, .node b ∈ ms → b.Fits (heightOfAll ps)
  | [], _, _, below, _, hb => by
    cases below
    cases hb
  | p :: ps, _, grammatical, below, b, hb => by
    obtain ⟨m, ms, first, rest, rfl⟩ := translateAll_cons_eq_some.1 below
    obtain ⟨here, there⟩ := List.forall_mem_append.1 grammatical
    obtain rfl | hb := Morsel.eq_or_mem_of_mem_before hb
    · have fits := fits_height here first
      exact ⟨fits.explicit, Nat.le_trans fits.nesting_le (Nat.le_max_left ..)⟩
    · have fits := fits_heightOfAll there rest b hb
      exact ⟨fits.explicit, Nat.le_trans fits.nesting_le (Nat.le_max_right ..)⟩

end

end Phrase

/-! ## One expression for each node -/

namespace Constant

/-- The constant that a value is, if it is one. -/
def of? : Value → Option Constant
  | .null => some .null
  | .bool b => some (.truth b)
  | .int n _ => some (.number (.integer n))
  | .float x _ => some (.number (.float (.number x)))
  | .nan _ => some (.number (.float .notANumber))
  | .str t _ => some (.text t)
  | _ => none

theorem Is.of? {c : Constant} {v : Value} (is : c.Is v) : Constant.of? v = some c := by
  cases c with
  | null => exact congrArg Constant.of? is
  | truth b => exact congrArg Constant.of? is
  | text t =>
    obtain ⟨stamp, rfl⟩ := is
    rfl
  | number x =>
    cases x with
    | integer n =>
      obtain ⟨stamp, rfl⟩ := is
      rfl
    | float x =>
      cases x with
      | number x =>
        obtain ⟨stamp, rfl⟩ := is
        rfl
      | notANumber =>
        obtain ⟨stamp, rfl⟩ := is
        rfl

/-- A value is one constant only. -/
theorem Is.unique {c d : Constant} {v : Value} (hc : c.Is v) (hd : d.Is v) : c = d :=
  Option.some.inj (hc.of?.symm.trans hd.of?)

end Constant

namespace Blueprint

variable {s : Store}

mutual

/-- The marks do not count for the nesting. -/
theorem nesting_unmarked : ∀ (b : Blueprint), b.unmarked.nesting = b.nesting
  | .literal _ _ => rfl
  | .reference _ _ => rfl
  | .node _ _ => rfl
  | .call _ callee args => by
    rw [unmarked, nesting, nesting, nesting_unmarked callee, nestingOfAll_unmarkedAll args]
  | .fallback _ op lhs rhs => by
    rw [unmarked, nesting, nesting, nesting_unmarked lhs, nesting_unmarked rhs, kind_unmarked]
  | .ternary _ condition thenBranch elseBranch => by
    rw [unmarked, nesting, nesting, nesting_unmarked condition, nesting_unmarked thenBranch,
      nesting_unmarked elseBranch]

theorem nestingOfAll_unmarkedAll : ∀ (bs : List Blueprint),
    nestingOfAll (unmarkedAll bs) = nestingOfAll bs
  | [] => rfl
  | b :: bs => by
    rw [unmarkedAll, nestingOfAll, nestingOfAll, nesting_unmarked b, nestingOfAll_unmarkedAll bs]

end

mutual

theorem IsWritable.isExplicit : ∀ {b : Blueprint}, b.IsWritable → b.IsExplicit
  | .literal _ _, _ => trivial
  | .reference _ _, _ => trivial
  | .call _ _ _, ⟨first, rest⟩ => ⟨first.isExplicit, rest.areExplicit⟩
  | .fallback _ _ _ _, ⟨first, second⟩ => ⟨first.isExplicit, second.isExplicit⟩
  | .ternary _ _ _ _, ⟨first, second, third⟩ =>
    ⟨first.isExplicit, second.isExplicit, third.isExplicit⟩

theorem AreWritable.areExplicit : ∀ {bs : List Blueprint}, AreWritable bs → AreExplicit bs
  | [], _ => trivial
  | _ :: _, ⟨first, rest⟩ => ⟨first.isExplicit, rest.areExplicit⟩

end

/-- The kind of an expression is that of a node that it describes. -/
theorem Describes.kind {b : Blueprint} {n : NodeRef} (describes : b.Describes s n)
    (explicit : b.IsExplicit) : (s.form n).kind = b.kind := by
  cases b with
  | literal mark c =>
    obtain ⟨v, form, -⟩ := describes
    rw [form]
    rfl
  | reference mark name =>
    obtain ⟨v, form, -⟩ := describes
    rw [form]
    rfl
  | call mark callee args =>
    obtain ⟨c, items, stamp, form, -⟩ := describes
    rw [form]
    rfl
  | fallback mark op lhs rhs =>
    obtain ⟨l, r, form, -⟩ := describes
    rw [form]
    rfl
  | ternary mark condition thenBranch elseBranch =>
    obtain ⟨c, t, e, form, -⟩ := describes
    rw [form]
    rfl
  | node m kind => exact explicit.elim

mutual

/-- A node is described by one expression only, but for the marks. -/
theorem Describes.unmarked_eq : ∀ {b c : Blueprint} {n : NodeRef}, b.Describes s n →
    c.Describes s n → b.IsExplicit → c.IsExplicit → b.unmarked = c.unmarked
  | b, c, n, hb, hc, eb, ec => by
    have kinds := (hb.kind eb).symm.trans (hc.kind ec)
    cases b with
    | literal mark k =>
      cases c with
      | literal mark' k' =>
        obtain ⟨v, form, is⟩ := hb
        obtain ⟨v', form', is'⟩ := hc
        cases form.symm.trans form'
        rw [unmarked, unmarked, is.unique is']
      | node => exact ec.elim
      | _ => cases kinds
    | reference mark name =>
      cases c with
      | reference mark' name' =>
        obtain ⟨v, form, named⟩ := hb
        obtain ⟨v', form', named'⟩ := hc
        cases form.symm.trans form'
        cases named.symm.trans named'
        rfl
      | node => exact ec.elim
      | _ => cases kinds
    | call mark callee args =>
      cases c with
      | call mark' callee' args' =>
        obtain ⟨m, items, stamp, form, first, rest⟩ := hb
        obtain ⟨m', items', stamp', form', first', rest'⟩ := hc
        cases form.symm.trans form'
        rw [unmarked, unmarked, first.unmarked_eq first' eb.1 ec.1,
          rest.unmarkedAll_eq rest' eb.2 ec.2]
      | node => exact ec.elim
      | _ => cases kinds
    | fallback mark op lhs rhs =>
      cases c with
      | fallback mark' op' lhs' rhs' =>
        obtain ⟨l, r, form, first, second⟩ := hb
        obtain ⟨l', r', form', first', second'⟩ := hc
        cases form.symm.trans form'
        rw [unmarked, unmarked, first.unmarked_eq first' eb.1 ec.1,
          second.unmarked_eq second' eb.2 ec.2]
      | node => exact ec.elim
      | _ => cases kinds
    | ternary mark condition thenBranch elseBranch =>
      cases c with
      | ternary mark' condition' thenBranch' elseBranch' =>
        obtain ⟨k, t, e, form, first, second, third⟩ := hb
        obtain ⟨k', t', e', form', first', second', third'⟩ := hc
        cases form.symm.trans form'
        rw [unmarked, unmarked, first.unmarked_eq first' eb.1 ec.1,
          second.unmarked_eq second' eb.2.1 ec.2.1, third.unmarked_eq third' eb.2.2 ec.2.2]
      | node => exact ec.elim
      | _ => cases kinds
    | node => exact eb.elim

theorem DescribeAll.unmarkedAll_eq : ∀ {bs cs : List Blueprint} {vs : List Value},
    DescribeAll s bs vs → DescribeAll s cs vs → AreExplicit bs → AreExplicit cs →
    unmarkedAll bs = unmarkedAll cs
  | [], [], _, _, _, _, _ => rfl
  | [], _ :: _, [], _, h, _, _ => h.elim
  | [], _ :: _, _ :: _, h, _, _, _ => h.elim
  | _ :: _, [], [], h, _, _, _ => h.elim
  | _ :: _, [], _ :: _, _, h, _, _ => h.elim
  | b :: bs, c :: cs, v :: vs, ⟨⟨n, same, hb⟩, restb⟩, ⟨⟨n', same', hc⟩, restc⟩, eb, ec => by
    cases same.symm.trans same'
    rw [unmarkedAll, unmarkedAll, hb.unmarked_eq hc eb.1 ec.1,
      restb.unmarkedAll_eq restc eb.2 ec.2]

end

/-- A tree of the grammar that is read as an expression is at least as high as another expression
takes, if both expressions describe the same node. -/
theorem nesting_le_height {b c : Blueprint} {p : Phrase} {n : NodeRef} (writable : b.IsWritable)
    (describes : b.Describes s n) (grammatical : ∀ q ∈ p.parts, q.IsGrammatical)
    (became : p.translate = some (.node c)) (describes' : c.Describes s n) :
    b.nesting ≤ p.height := by
  have fits := Phrase.fits_height grammatical became
  have same := describes.unmarked_eq describes' writable.isExplicit fits.explicit
  rw [← nesting_unmarked b, same, nesting_unmarked c]
  exact fits.nesting_le

end Blueprint

end Fallback
