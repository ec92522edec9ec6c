import Fallback.Proofs.Description

/-!
Marks do not count in the walk.

`Phrase.unmarked` takes the marks off the rules and the tokens of a parse tree, as
`Blueprint.unmarked` does with an expression. There is one law for each function of the walk, and
they come together in `Phrase.verdict_unmarked`: the verdict on a tree without its marks is the
verdict on the tree, without the marks. So trees that differ only in marks are accepted together,
and where they are not, they end with faults of one kind.
-/
namespace Fallback

namespace Phrase

mutual

/-- The phrase without the marks of its rules and tokens. -/
def unmarked : Phrase → Phrase
  | .rule label _ ps => .rule label none (unmarkedAll ps)
  | .token kind text _ => .token kind text none
  | .node n kind => .node n kind
  | .other v => .other v

/-- The phrases without the marks of their rules and tokens. -/
def unmarkedAll : List Phrase → List Phrase
  | [] => []
  | p :: more => p.unmarked :: unmarkedAll more

end

end Phrase

/-- What a phrase becomes, without marks. -/
def Morsel.unmarked : Morsel → Morsel
  | .node b => .node b.unmarked
  | .token text => .token text
  | .other => .other
  | .dropped => .dropped

/-! ## Expressions -/

namespace Blueprint

theorem unmarkedAll_eq_map (bs : List Blueprint) : unmarkedAll bs = bs.map unmarked := by
  induction bs with
  | nil => rfl
  | cons b bs ih => rw [unmarkedAll, ih, List.map_cons]

theorem fold_unmarked (mark : Mark) (op : Operator) (b : Blueprint) (bs : List Blueprint) :
    fold none op b.unmarked (bs.map unmarked) = (fold mark op b bs).unmarked := by
  induction bs generalizing b with
  | nil => rfl
  | cons c bs ih => rw [List.map_cons, fold, fold, ih, unmarked]

end Blueprint

/-! ## Rules and terminals -/

theorem Terminal.translate_unmarked (t : Terminal) (text : String) (mark : Mark) :
    t.translate text none = (t.translate text mark).map Blueprint.unmarked := by
  cases t with
  | number =>
    rw [translate, translate, Option.map_map]
    rfl
  | name =>
    rw [translate, translate]
    split <;> rfl
  | _ => rfl

namespace Rule

theorem operands_unmarked (r : Rule) (ms : List Morsel) :
    r.operands (ms.map Morsel.unmarked) = (r.operands ms).map (List.map Blueprint.unmarked) := by
  induction ms with
  | nil => rfl
  | cons m ms ih =>
    cases m with
    | node b =>
      rw [List.map_cons, Morsel.unmarked, operands, operands, ih, Option.map_map, Option.map_map]
      rfl
    | token text =>
      rw [List.map_cons, Morsel.unmarked, operands, operands, ih]
      split <;> rfl
    | other | dropped => rfl

theorem join_unmarked (r : Rule) (mark : Mark) (bs : List Blueprint) :
    r.join none (bs.map Blueprint.unmarked) = (r.join mark bs).map Blueprint.unmarked := by
  cases r with
  | group => rcases bs with - | ⟨b, - | ⟨b', bs⟩⟩ <;> rfl
  | call =>
    cases bs with
    | nil => rfl
    | cons b bs =>
      simp only [List.map_cons, join, Option.map_some, Blueprint.unmarked,
        Blueprint.unmarkedAll_eq_map]
  | chain op =>
    rcases bs with - | ⟨b, - | ⟨b', bs⟩⟩
    · rfl
    · rfl
    · simp only [List.map_cons, join, Option.map_some, Blueprint.unmarked,
        Blueprint.fold_unmarked mark]
  | ternary => rcases bs with - | ⟨b, - | ⟨c, - | ⟨d, - | ⟨e, bs⟩⟩⟩⟩ <;> rfl
  | literal | var => cases bs <;> rfl

theorem only_unmarked (kind : NodeKind) (ms : List Morsel) :
    only kind (ms.map Morsel.unmarked) = (only kind ms).map Blueprint.unmarked := by
  rcases ms with - | ⟨m, - | ⟨m', ms⟩⟩
  · rfl
  · cases m with
    | node b =>
      simp only [List.map_cons, List.map_nil, Morsel.unmarked, only, Blueprint.kind_unmarked]
      split <;> rfl
    | token | other | dropped => rfl
  · cases m <;> rfl

theorem translate_unmarked (r : Rule) (mark : Mark) (ms : List Morsel) :
    r.translate none (ms.map Morsel.unmarked) = (r.translate mark ms).map Blueprint.unmarked := by
  have gathered : (r.operands (ms.map Morsel.unmarked)).bind (r.join none) =
      ((r.operands ms).bind (r.join mark)).map Blueprint.unmarked := by
    rw [operands_unmarked]
    cases r.operands ms with
    | none => rfl
    | some bs => exact join_unmarked r mark bs
  cases r with
  | literal => exact only_unmarked _ ms
  | var => exact only_unmarked _ ms
  | _ => exact gathered

end Rule

/-! ## The walk -/

/-- What the walk ends with, without marks. -/
def Morsel.unmarkedEnd (found : Morsel × Mode) : Morsel × Mode :=
  (found.1.unmarked, found.2)

theorem Morsel.unmarked_ofValue (v : Value) : (ofValue v).unmarked = ofValue v := by
  rw [ofValue]
  split <;> rfl

theorem Morsel.before_unmarked (m : Morsel) (ms : List Morsel) :
    m.unmarked.before (ms.map unmarked) = (m.before ms).map unmarked := by
  cases m <;> rfl

theorem Morsel.ofBlueprint?_unmarked (mode : Mode) (b? : Option Blueprint) :
    ofBlueprint? mode (b?.map Blueprint.unmarked) = (ofBlueprint? mode b?).map unmarkedEnd := by
  cases b? <;> rfl

theorem Effect.walk_unmarked (effect : Effect) (given : Morsel) (mode : Mode) :
    effect.walk given.unmarked mode = (effect.walk given mode).map Morsel.unmarkedEnd := by
  cases effect <;> rfl

namespace Phrase

variable (i : Interpreter)

theorem walkRule_unmarked (label : String) (mark : Mark) (ms : List Morsel) (mode : Mode) :
    walkRule i label none (ms.map Morsel.unmarked) mode =
      (walkRule i label mark ms mode).map Morsel.unmarkedEnd := by
  rw [walkRule, walkRule]
  cases Meaning.of i label with
  | rule r =>
    simp only [Rule.translate_unmarked r mark]
    exact Morsel.ofBlueprint?_unmarked _ _
  | terminal t => cases mode.wrapper? <;> cases t <;> rfl
  | operation op =>
    simp only [List.length_map]
    exact (op.onRule mode ms.length).walk_unmarked .other mode
  | unknown => rfl

theorem walkToken_unmarked (kind text : String) (mark : Mark) (mode : Mode) :
    walkToken i kind text none mode = (walkToken i kind text mark mode).map Morsel.unmarkedEnd := by
  rw [walkToken, walkToken]
  cases mode.visitsTokens with
  | false => rfl
  | true =>
    simp only [if_true]
    cases Meaning.of i kind with
    | rule r => rfl
    | terminal t =>
      simp only [t.translate_unmarked text mark]
      exact Morsel.ofBlueprint?_unmarked _ _
    | operation op => exact (op.onToken mode text).walk_unmarked (.token text) mode
    | unknown => rfl

mutual

theorem walk_unmarked : ∀ (p : Phrase) (depth : Nat) (mode : Mode),
    p.unmarked.walk i depth mode = (p.walk i depth mode).map Morsel.unmarkedEnd
  | .rule _ _ _, 0, _ => rfl
  | .rule label mark ps, depth + 1, mode => by
    rw [unmarked, walk, walk, walkAll_unmarked ps depth mode]
    rcases walkAll i ps depth mode with k | ⟨ms, mode'⟩
    · rfl
    · exact walkRule_unmarked i label mark ms mode'
  | .token _ _ _, 0, _ => rfl
  | .token kind text mark, _ + 1, mode => walkToken_unmarked i kind text mark mode
  | .node _ _, _, _ => rfl
  | .other v, _, mode => by
    show Except.ok (Morsel.ofValue v, mode) = .ok ((Morsel.ofValue v).unmarked, mode)
    rw [Morsel.unmarked_ofValue]

theorem walkAll_unmarked : ∀ (ps : List Phrase) (depth : Nat) (mode : Mode),
    walkAll i (unmarkedAll ps) depth mode =
      (walkAll i ps depth mode).map fun found => (found.1.map Morsel.unmarked, found.2)
  | [], _, _ => rfl
  | p :: more, depth, mode => by
    rw [unmarkedAll, walkAll, walkAll, walk_unmarked p depth mode]
    rcases p.walk i depth mode with k | ⟨m, mode'⟩
    · rfl
    · show (walkAll i (unmarkedAll more) depth mode' >>= fun x =>
        pure (m.unmarked.before x.1, x.2)) = _
      rw [walkAll_unmarked more depth mode']
      show _ = Except.map _ (walkAll i more depth mode' >>= fun x => pure (m.before x.1, x.2))
      rcases walkAll i more depth mode' with k | ⟨ms, mode''⟩
      · rfl
      · exact congrArg (fun ms => Except.ok (ms, mode'')) (m.before_unmarked ms)

end

variable {i} {p p' : Phrase}

mutual

theorem height_unmarked : ∀ p : Phrase, p.unmarked.height = p.height
  | .rule _ _ ps => congrArg (· + 1) (heightOfAll_unmarked ps)
  | .token _ _ _ => rfl
  | .node _ _ => rfl
  | .other _ => rfl

theorem heightOfAll_unmarked : ∀ ps : List Phrase, heightOfAll (unmarkedAll ps) = heightOfAll ps
  | [] => rfl
  | p :: more => by
    rw [unmarkedAll, heightOfAll, heightOfAll, height_unmarked p, heightOfAll_unmarked more]

end

end Phrase

end Fallback
