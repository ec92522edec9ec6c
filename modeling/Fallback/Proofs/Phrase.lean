import Fallback.Lowering

/-!
Parse trees by their structure alone, and what they mean.

`Phrase` is what a parse tree says, written out without a store: the labels and kinds as texts, the
marks of each part in the source, and the nodes that stand in it already. `Blueprint` is the
expression that it describes. `Phrase.translated` is the reference: it goes bottom-up and from left
to right, knows the rules and the terminals and nothing else, and fails where the tree is broken.

The transformation also has operations from its base, its rules and terminals share one space of
names, and its recursion may run out. What it does in an interpreter is said by `Phrase.walk`, again
without a store: it ends with the kind of the fault where it fails. `Phrase.walk_of_isFree` says
that without collisions there is nothing but the reference and a recursion that runs out.
-/
namespace Fallback

/-- The marks of a part in the source, its line and its column, if it has any. -/
abbrev Mark := Option Attributes

/-- A part of a parse tree: a rule, a token, a node that was made before, or any other value. -/
inductive Phrase
  | rule (label : String) (mark : Mark) (parts : List Phrase)
  | token (kind text : String) (mark : Mark)
  | node (n : NodeRef) (kind : NodeKind)
  | other (v : Value)

/-- What a literal stands for. -/
inductive Constant
  | null
  | truth (b : Bool)
  | number (n : NumberReading)
  | text (t : String)

/-- An expression with its marks in the source. A node that was made before is kept as it is, and of
it only the kind counts. -/
inductive Blueprint
  | literal (mark : Mark) (c : Constant)
  | reference (mark : Mark) (name : String)
  | call (mark : Mark) (callee : Blueprint) (args : List Blueprint)
  | fallback (mark : Mark) (op : Operator) (lhs rhs : Blueprint)
  | ternary (mark : Mark) (condition thenBranch elseBranch : Blueprint)
  | node (n : NodeRef) (kind : NodeKind)

/-- What a phrase becomes: a token that stays, an expression, something else, or nothing. -/
inductive Morsel
  | token (text : String)
  | node (b : Blueprint)
  | other
  | dropped

/-! ## Names -/

namespace Rule

@[simp] theorem of?_label (r : Rule) : Rule.of? r.label = some r := by
  cases r with
  | chain op => cases op <;> rfl
  | _ => rfl

@[simp] theorem of?_kind (t : Terminal) : Rule.of? t.kind = none := by
  cases t <;> rfl

theorem label_of_of? {name : String} {r : Rule} (h : Rule.of? name = some r) : r.label = name := by
  simpa using List.find?_some h

end Rule

namespace Terminal

@[simp] theorem of?_kind (t : Terminal) : Terminal.of? t.kind = some t := by
  cases t <;> rfl

theorem kind_of_of? {name : String} {t : Terminal} (h : Terminal.of? name = some t) :
    t.kind = name := by
  simpa using List.find?_some h

end Terminal

namespace Meaning

variable {i : Interpreter} {name : String}

@[simp] theorem of_label (i : Interpreter) (r : Rule) : Meaning.of i r.label = .rule r := by
  rw [Meaning.of, Rule.of?_label]

@[simp] theorem of_kind (i : Interpreter) (t : Terminal) : Meaning.of i t.kind = .terminal t := by
  rw [Meaning.of, Rule.of?_kind, Terminal.of?_kind]

theorem label_of {r : Rule} (h : Meaning.of i name = .rule r) : r.label = name := by
  rw [Meaning.of] at h
  split at h
  · next found =>
    cases h
    exact Rule.label_of_of? found
  · cases h
  · split at h <;> cases h

theorem kind_of {t : Terminal} (h : Meaning.of i name = .terminal t) : t.kind = name := by
  rw [Meaning.of] at h
  split at h
  · cases h
  · next _ found =>
    cases h
    exact Terminal.kind_of_of? found
  · split at h <;> cases h

theorem rule_eq_none (h : ∀ r, Meaning.of i name ≠ .rule r) : Rule.of? name = none := by
  cases found : Rule.of? name with
  | none => rfl
  | some r =>
    obtain rfl := Rule.label_of_of? found
    exact absurd (of_label i r) (h r)

theorem terminal_eq_none (h : ∀ t, Meaning.of i name ≠ .terminal t) : Terminal.of? name = none := by
  cases found : Terminal.of? name with
  | none => rfl
  | some t =>
    obtain rfl := Terminal.kind_of_of? found
    exact absurd (of_kind i t) (h t)

end Meaning

/-! ## Rules and terminals -/

namespace Blueprint

/-- The kind of the node that the expression becomes. -/
def kind : Blueprint → NodeKind
  | .literal _ _ => .literal
  | .reference _ _ => .reference
  | .call _ _ _ => .call
  | .fallback _ op _ _ => .fallback op
  | .ternary _ _ _ _ => .ternary
  | .node _ kind => kind

/-- The expressions right below an expression. -/
def operands : Blueprint → List Blueprint
  | .call _ callee args => callee :: args
  | .fallback _ _ lhs rhs => [lhs, rhs]
  | .ternary _ condition thenBranch elseBranch => [condition, thenBranch, elseBranch]
  | .literal _ _ | .reference _ _ | .node _ _ => []

/-- Operands folded to the right, every operator with the same marks. -/
def fold (mark : Mark) (op : Operator) : Blueprint → List Blueprint → Blueprint
  | a, [] => a
  | a, b :: more => .fallback mark op a (fold mark op b more)

end Blueprint

/-- What a terminal stands for whose tokens all stand for one value. -/
def Terminal.fixed? : Terminal → Option Constant
  | .true => some (.truth Bool.true)
  | .false => some (.truth Bool.false)
  | .null => some .null
  | _ => none

/-- The expression that a token is. A numeral has to spell a number, and a name must not be
empty. -/
def Terminal.translate (text : String) (mark : Mark) : Terminal → Option Blueprint
  | .number => (NumberReading.of? text).map fun n => .literal mark (.number n)
  | .string => some (.literal mark (.text (unquote text)))
  | .name => if text = "" then none else some (.reference mark text)
  | .true => some (.literal mark (.truth Bool.true))
  | .false => some (.literal mark (.truth Bool.false))
  | .null => some (.literal mark .null)

namespace Rule

/-- The expressions among the parts of a rule; everything else has to be punctuation of the rule. -/
def operands (r : Rule) : List Morsel → Option (List Blueprint)
  | [] => some []
  | .node b :: more => (r.operands more).map (b :: ·)
  | .token text :: more => if r.punctuation.contains text then r.operands more else none
  | .other :: _ | .dropped :: _ => none

/-- The only part of a rule, if it is an expression of a kind. -/
def only (kind : NodeKind) : List Morsel → Option Blueprint
  | [.node b] => if b.kind = kind then some b else none
  | _ => none

/-- The expression that a rule makes of its operands. -/
def join (mark : Mark) : Rule → List Blueprint → Option Blueprint
  | .group, [b] => some b
  | .call, callee :: args => some (.call mark callee args)
  | .chain op, a :: b :: more => some (.fallback mark op a (Blueprint.fold mark op b more))
  | .ternary, [c, t, e] => some (.ternary mark c t e)
  | _, _ => none

/-- The expression that a rule makes of what its parts became. -/
def translate (mark : Mark) (morsels : List Morsel) : Rule → Option Blueprint
  | .literal => only .literal morsels
  | .var => only .reference morsels
  | r => (r.operands morsels).bind (r.join mark)

end Rule

/-! ## The reference -/

namespace Morsel

/-- A value that is neither a part of a tree nor a node. -/
def ofValue (v : Value) : Morsel :=
  if v.isDiscard then .dropped else .other

/-- The morsel in front of others, unless it is dropped. -/
def before : Morsel → List Morsel → List Morsel
  | .dropped, more => more
  | m, more => m :: more

theorem ofValue_eq_or (v : Value) : ofValue v = .other ∨ ofValue v = .dropped := by
  rw [ofValue]
  split
  · exact .inr rfl
  · exact .inl rfl

theorem mem_before_or (m : Morsel) (more : List Morsel) : m ∈ m.before more ∨ m = .dropped := by
  cases m with
  | dropped => exact .inr rfl
  | _ => exact .inl (List.mem_cons_self ..)

theorem mem_before_of_mem (m : Morsel) {n : Morsel} {more : List Morsel} (h : n ∈ more) :
    n ∈ m.before more := by
  cases m with
  | dropped => exact h
  | _ => exact List.mem_cons_of_mem _ h

theorem eq_or_mem_of_mem_before {m n : Morsel} {more : List Morsel} (h : n ∈ m.before more) :
    n = m ∨ n ∈ more := by
  cases m with
  | dropped => exact .inr h
  | _ => exact List.mem_cons.1 h

theorem before_node (b : Blueprint) (more : List Morsel) :
    (node b).before more = .node b :: more :=
  rfl

theorem before_append (m : Morsel) (ms ns : List Morsel) :
    m.before ms ++ ns = m.before (ms ++ ns) := by
  cases m <;> rfl

theorem length_before_le (m : Morsel) (more : List Morsel) :
    (m.before more).length ≤ more.length + 1 := by
  cases m <;> simp [before]

end Morsel

namespace Phrase

mutual

/-- What a phrase becomes, unless the tree is broken somewhere in it. -/
def translate : Phrase → Option Morsel
  | .rule label mark parts => do
    let morsels ← translateAll parts
    match Rule.of? label with
    | some r => (r.translate mark morsels).map .node
    | none => none
  | .token kind text mark =>
    match Terminal.of? kind with
    | some t => (t.translate text mark).map .node
    | none => some (.token text)
  | .node n kind => some (.node (.node n kind))
  | .other v => some (.ofValue v)

/-- What phrases become, one after the other. -/
def translateAll : List Phrase → Option (List Morsel)
  | [] => some []
  | p :: more => do
    let m ← p.translate
    return m.before (← translateAll more)

end

/-- A token on its own stands for a group that holds only it and has no marks. -/
def root : Phrase → Phrase
  | .token kind text mark => .rule Rule.group.label none [.token kind text mark]
  | p => p

/-- The expression that a whole tree describes, unless it is broken. -/
def translated (p : Phrase) : Option Blueprint :=
  match p.root.translate with
  | some (.node b) => some b
  | _ => none

mutual

/-- The number of rules and tokens on the longest way down. -/
def height : Phrase → Nat
  | .rule _ _ parts => heightOfAll parts + 1
  | .token _ _ _ => 1
  | .node _ _ | .other _ => 0

/-- The height of the highest phrase of a list. -/
def heightOfAll : List Phrase → Nat
  | [] => 0
  | p :: more => max p.height (heightOfAll more)

end

mutual

/-- The phrase itself and all the phrases in it. -/
def parts : Phrase → List Phrase
  | .rule label mark ps => .rule label mark ps :: partsOfAll ps
  | p => [p]

/-- The phrases of a list and all the phrases in them. -/
def partsOfAll : List Phrase → List Phrase
  | [] => []
  | p :: more => p.parts ++ partsOfAll more

end

/-! ## The walk -/

end Phrase

/-- How a recursion that runs out in the walk over a tree is reported. -/
def Interpreter.exhaustion (i : Interpreter) : FaultKind :=
  if i.strikesCallback then .visit else .recursion

/-- What an operation makes of what it is given, and the mode afterwards. -/
def Effect.walk (given : Morsel) (mode : Mode) : Effect → Except FaultKind (Morsel × Mode)
  | .fails _ => .error .visit
  | .handsBack => .ok (given, mode)
  | .setsVisits visits? => .ok (.other, { mode with visits? })
  | .yields _ => .ok (.other, mode)
  | .wraps wrapper _ =>
    .ok (.other, { mode with wrapper? := mode.wrapper?.or (some wrapper) })

/-- What there is, or else the report of a broken tree. -/
def orMalformed {α : Type} : Option α → Except FaultKind α
  | some a => .ok a
  | none => .error .malformed

/-- An expression as what a phrase becomes, if there is one. -/
def Morsel.ofBlueprint? (mode : Mode) (b : Option Blueprint) : Except FaultKind (Morsel × Mode) :=
  (orMalformed b).map fun b => (.node b, mode)

theorem Effect.walk_eq_error {effect : Effect} {given : Morsel} {mode : Mode} {k : FaultKind}
    (h : effect.walk given mode = .error k) : (∃ m, effect = .fails m) ∧ k = .visit := by
  cases effect with
  | fails m =>
    cases h
    exact ⟨⟨m, rfl⟩, rfl⟩
  | _ => cases h

/-- Only an operation that wraps the operations for tokens leaves them wrapped. -/
theorem Effect.wrapper?_of_walk {effect : Effect} {given m : Morsel} {mode mode' : Mode}
    (h : effect.walk given mode = .ok (m, mode')) (wrapped : mode'.wrapper? ≠ none) :
    mode.wrapper? ≠ none ∨ ∃ w name, effect = .wraps w name := by
  cases effect with
  | fails m => cases h
  | wraps w name => exact .inr ⟨w, name, rfl⟩
  | _ =>
    cases h
    exact .inl wrapped

theorem exists_ok_of_bind {α β : Type} {x : Except FaultKind α} {f : α → Except FaultKind β} {b : β}
    (h : x >>= f = .ok b) : ∃ a, x = .ok a ∧ f a = .ok b := by
  cases x with
  | error k => cases h
  | ok a => exact ⟨a, rfl, h⟩

theorem orMalformed_eq_error {α : Type} {a? : Option α} (k : FaultKind)
    (h : orMalformed a? = .error k) : k = .malformed := by
  cases a? with
  | none => exact (Except.error.inj h).symm
  | some a => cases h

theorem Morsel.ofBlueprint?_eq (mode : Mode) (b : Option Blueprint) :
    Morsel.ofBlueprint? mode b = (orMalformed (b.map .node)).map fun m => (m, mode) := by
  cases b <;> rfl

theorem Morsel.mode_of_ofBlueprint? {mode mode' : Mode} {b : Option Blueprint} {m : Morsel}
    (h : Morsel.ofBlueprint? mode b = .ok (m, mode')) : mode' = mode := by
  cases b with
  | none => cases h
  | some b =>
    cases h
    rfl

theorem Morsel.ofBlueprint?_eq_error {mode : Mode} {b : Option Blueprint} {k : FaultKind}
    (h : Morsel.ofBlueprint? mode b = .error k) : k = .malformed := by
  cases b with
  | none => exact (Except.error.inj h).symm
  | some b => cases h

namespace Phrase

/-- What a rule with a label becomes. A label that is the kind of a token gives the one value of
such tokens, if there is one, without marks. -/
def walkRule (i : Interpreter) (label : String) (mark : Mark) (morsels : List Morsel)
    (mode : Mode) : Except FaultKind (Morsel × Mode) :=
  match Meaning.of i label with
  | .rule r => Morsel.ofBlueprint? mode (r.translate mark morsels)
  | .terminal t =>
    match mode.wrapper?, t.fixed? with
    | none, some c => .ok (.node (.literal none c), mode)
    | _, _ => .error .visit
  | .operation op => (op.onRule mode morsels.length).walk .other mode
  | .unknown => .error .malformed

/-- What a token becomes. -/
def walkToken (i : Interpreter) (kind text : String) (mark : Mark) (mode : Mode) :
    Except FaultKind (Morsel × Mode) :=
  if mode.visitsTokens then
    match Meaning.of i kind with
    | .rule _ => .error .visit
    | .terminal t => Morsel.ofBlueprint? mode (t.translate text mark)
    | .operation op => (op.onToken mode text).walk (.token text) mode
    | .unknown => .ok (.token text, mode)
  else .ok (.token text, mode)

mutual

/-- What becomes of a phrase, or the kind of the fault with which it ends. `depth` bounds the
nesting, and the mode is that of the transformer, before and afterwards. -/
def walk (i : Interpreter) : Phrase → Nat → Mode → Except FaultKind (Morsel × Mode)
  | .rule _ _ _, 0, _ => .error i.exhaustion
  | .rule label mark ps, depth + 1, mode => do
    let (morsels, mode) ← walkAll i ps depth mode
    walkRule i label mark morsels mode
  | .token _ _ _, 0, _ => .error i.exhaustion
  | .token kind text mark, _ + 1, mode => walkToken i kind text mark mode
  | .node n kind, _, mode => .ok (.node (.node n kind), mode)
  | .other v, _, mode => .ok (.ofValue v, mode)

/-- What becomes of phrases, one after the other. -/
def walkAll (i : Interpreter) : List Phrase → Nat → Mode → Except FaultKind (List Morsel × Mode)
  | [], _, mode => .ok ([], mode)
  | p :: more, depth, mode => do
    let (m, mode) ← walk i p depth mode
    let (ms, mode) ← walkAll i more depth mode
    return (m.before ms, mode)

end

/-- What becomes of a whole tree. -/
def verdict (i : Interpreter) (p : Phrase) : Except FaultKind Blueprint := do
  match ← p.root.walk i i.treeDepth i.mode with
  | (.node b, _) => .ok b
  | _ => .error .malformed

/-! ## What is nested too deep -/

mutual

/-- What is nested too deep is never lowered. -/
theorem exists_error_of_lt_height (i : Interpreter) : ∀ (p : Phrase) (depth : Nat) (mode : Mode),
    depth < p.height → ∃ k, p.walk i depth mode = .error k
  | .rule _ _ _, 0, _, _ => ⟨_, rfl⟩
  | .rule label mark ps, depth + 1, mode, deep => by
    obtain ⟨k, below⟩ :=
      exists_error_of_lt_heightOfAll i ps depth mode (Nat.lt_of_succ_lt_succ deep)
    exact ⟨k, by rw [walk, below]; rfl⟩
  | .token _ _ _, 0, _, _ => ⟨_, rfl⟩
  | .token _ _ _, depth + 1, _, deep => by simp [height] at deep
  | .node _ _, _, _, deep => absurd deep (Nat.not_lt_zero _)
  | .other _, _, _, deep => absurd deep (Nat.not_lt_zero _)

theorem exists_error_of_lt_heightOfAll (i : Interpreter) : ∀ (ps : List Phrase) (depth : Nat)
    (mode : Mode), depth < heightOfAll ps → ∃ k, walkAll i ps depth mode = .error k
  | [], _, _, deep => absurd deep (Nat.not_lt_zero _)
  | p :: more, depth, mode, deep => by
    rw [walkAll]
    rcases first : p.walk i depth mode with k | ⟨m, mode'⟩
    · exact ⟨k, rfl⟩
    · have shallow : ¬depth < p.height := by
        intro deep
        obtain ⟨k, fails⟩ := exists_error_of_lt_height i p depth mode deep
        rw [first] at fails
        cases fails
      rw [heightOfAll] at deep
      obtain ⟨k, rest⟩ := exists_error_of_lt_heightOfAll i more depth mode' (by omega)
      exact ⟨k, by simp only [bind, Except.bind, rest]⟩

end

/-- A tree that is nested too deep has no verdict but a fault. -/
theorem exists_error_of_verdict {i : Interpreter} {p : Phrase}
    (deep : i.treeDepth < p.root.height) : ∃ k, p.verdict i = .error k := by
  obtain ⟨k, walked⟩ := exists_error_of_lt_height i p.root i.treeDepth i.mode deep
  exact ⟨k, by rw [verdict, walked]; rfl⟩

/-! ## Without collisions there is nothing but the reference -/

/-- A rule is labelled as a rule, or by a name that means nothing, and a token is of the kind of a
terminal, or of one that means nothing. -/
def IsPlain (i : Interpreter) : Phrase → Prop
  | .rule label _ _ => (∃ r : Rule, label = r.label) ∨ Meaning.of i label = .unknown
  | .token kind _ _ => (∃ t : Terminal, kind = t.kind) ∨ Meaning.of i kind = .unknown
  | _ => True

/-- None of the labels and kinds in the tree collides. -/
def IsFree (i : Interpreter) (p : Phrase) : Prop :=
  ∀ q ∈ p.parts, q.IsPlain i

theorem mem_parts_self (p : Phrase) : p ∈ p.parts := by
  cases p <;> simp [parts]

theorem mem_parts_of_mem {label : String} {mark : Mark} {ps : List Phrase} {q : Phrase}
    (h : q ∈ partsOfAll ps) : q ∈ (Phrase.rule label mark ps).parts :=
  List.mem_cons_of_mem _ h

section Free

variable {i : Interpreter} {mode : Mode}

/-- A plain rule becomes what the reference says. -/
theorem walkRule_of_isPlain {label : String} {mark : Mark} {ps : List Phrase}
    (plain : (Phrase.rule label mark ps).IsPlain i) (morsels : List Morsel) :
    walkRule i label mark morsels mode =
      Morsel.ofBlueprint? mode ((Rule.of? label).bind fun r => r.translate mark morsels) := by
  rw [walkRule]
  obtain ⟨r, rfl⟩ | unknown := plain
  · rw [Meaning.of_label, Rule.of?_label]
    rfl
  · rw [unknown, Meaning.rule_eq_none (i := i) (by simp [unknown])]
    rfl

/-- A token of a kind that means nothing stays. -/
theorem translate_of_unknown {kind text : String} {mark : Mark}
    (unknown : Meaning.of i kind = .unknown) :
    (Phrase.token kind text mark).translate = some (.token text) := by
  rw [translate, Meaning.terminal_eq_none (i := i) (by simp [unknown])]

mutual

/-- Plain phrases become what the reference says, unless they are nested too deep and the recursion
runs out before that. -/
theorem walk_of_isFree (visits : mode.visitsTokens = true) : ∀ (p : Phrase) (depth : Nat),
    p.IsFree i →
    p.walk i depth mode = (orMalformed p.translate).map (fun m => (m, mode)) ∨
      depth < p.height ∧ p.walk i depth mode = .error i.exhaustion
  | .rule label mark ps, 0, _ => .inr ⟨Nat.succ_pos _, rfl⟩
  | .rule label mark ps, depth + 1, free => by
    rw [walk, translate]
    obtain below | ⟨deep, below⟩ :=
      walkAll_of_isFree visits ps depth fun q hq => free q (mem_parts_of_mem hq)
    · refine .inl ?_
      rw [below]
      cases translateAll ps with
      | none => rfl
      | some morsels =>
        refine (walkRule_of_isPlain (free _ (mem_parts_self _)) morsels).trans ?_
        simp only [Option.bind_eq_bind, Option.bind_some]
        cases Rule.of? label with
        | none => rfl
        | some r => exact Morsel.ofBlueprint?_eq mode _
    · refine .inr ⟨Nat.succ_lt_succ deep, ?_⟩
      rw [below]
      rfl
  | .token _ _ _, 0, _ => .inr ⟨Nat.succ_pos _, rfl⟩
  | .token kind text mark, _ + 1, free => by
    refine .inl ?_
    rw [walk, walkToken, if_pos visits]
    obtain ⟨t, rfl⟩ | unknown := free _ (mem_parts_self _)
    · rw [translate, Meaning.of_kind, Terminal.of?_kind]
      exact Morsel.ofBlueprint?_eq mode _
    · rw [translate_of_unknown unknown, unknown]
      rfl
  | .node n kind, _, _ => .inl rfl
  | .other v, _, _ => .inl rfl

theorem walkAll_of_isFree (visits : mode.visitsTokens = true) : ∀ (ps : List Phrase)
    (depth : Nat), (∀ q ∈ partsOfAll ps, q.IsPlain i) →
    walkAll i ps depth mode = (orMalformed (translateAll ps)).map (fun ms => (ms, mode)) ∨
      depth < heightOfAll ps ∧ walkAll i ps depth mode = .error i.exhaustion
  | [], _, _ => .inl rfl
  | p :: more, depth, free => by
    rw [walkAll, translateAll, heightOfAll]
    obtain first | ⟨deep, first⟩ :=
      walk_of_isFree visits p depth fun q hq => free q (List.mem_append_left _ hq)
    · rw [first]
      cases p.translate with
      | none => exact .inl rfl
      | some m =>
        obtain rest | ⟨deep, rest⟩ :=
          walkAll_of_isFree visits more depth fun q hq => free q (List.mem_append_right _ hq)
        · refine .inl ?_
          show (walkAll i more depth mode >>= fun x => pure (m.before x.1, x.2)) = _
          rw [rest]
          cases translateAll more <;> rfl
        · refine .inr ⟨Nat.lt_of_lt_of_le deep (Nat.le_max_right ..), ?_⟩
          show (walkAll i more depth mode >>= fun x => pure (m.before x.1, x.2)) = _
          rw [rest]
          rfl
    · refine .inr ⟨Nat.lt_of_lt_of_le deep (Nat.le_max_left ..), ?_⟩
      rw [first]
      rfl

end

theorem IsFree.root {p : Phrase} (free : p.IsFree i) : p.root.IsFree i := by
  cases p with
  | token kind text mark =>
    intro q hq
    obtain rfl | hq := List.mem_cons.1 hq
    · exact .inl ⟨.group, rfl⟩
    · exact free q hq
  | _ => exact free

/-- Without collisions a whole tree is translated, unless it is nested too deep and the recursion
runs out before that. -/
theorem verdict_eq_or_of_isFree {p : Phrase} (free : p.IsFree i) :
    p.verdict i = orMalformed p.translated ∨
      i.treeDepth < p.root.height ∧ p.verdict i = .error i.exhaustion := by
  rw [verdict]
  obtain walked | ⟨deep, walked⟩ :=
    walk_of_isFree i.visitsTokens_mode p.root i.treeDepth free.root
  · rw [walked, translated]
    rcases p.root.translate with _ | (_ | _ | _ | _) <;> exact .inl rfl
  · rw [walked]
    exact .inr ⟨deep, rfl⟩

/-- Without collisions, and within the limit on the nesting, a whole tree is translated. -/
theorem verdict_of_isFree {p : Phrase} (free : p.IsFree i)
    (shallow : p.root.height ≤ i.treeDepth) : p.verdict i = orMalformed p.translated :=
  (verdict_eq_or_of_isFree free).resolve_right fun deep => Nat.not_lt_of_le shallow deep.1

/-- Without collisions, and beyond the limit on the nesting, the recursion runs out, or the tree is
broken and that is found before. -/
theorem verdict_of_isFree_of_lt {p : Phrase} (free : p.IsFree i)
    (deep : i.treeDepth < p.root.height) :
    p.verdict i = .error i.exhaustion ∨ p.translated = none ∧ p.verdict i = .error .malformed := by
  obtain translates | ⟨-, exhausted⟩ := verdict_eq_or_of_isFree free
  · obtain ⟨k, fails⟩ := exists_error_of_verdict deep
    cases translated : p.translated with
    | none =>
      rw [translated] at translates
      exact .inr ⟨rfl, translates⟩
    | some b =>
      rw [translates, translated] at fails
      cases fails
  · exact .inl exhausted

end Free

/-! ## How the walk fails -/

section Failing

variable (i : Interpreter)

/-- The label or the kind of the phrase is one that the transformation takes for something else, and
fails over: a rule that is labelled like a token that needs its text, a token of a kind that is the
label of a rule, or an operation of the base that fails. -/
def Stumbles : Phrase → Prop
  | .rule label _ ps =>
    (∃ t : Terminal, label = t.kind ∧ t.fixed? = none) ∨
      ∃ op mode count m, Meaning.of i label = .operation op ∧ count ≤ ps.length ∧
        op.onRule mode count = .fails m
  | .token kind text _ =>
    (∃ r : Rule, kind = r.label) ∨
      ∃ op mode m, Meaning.of i kind = .operation op ∧ op.onToken mode text = .fails m
  | _ => False

/-- The phrase is handed to an operation of the base that puts a wrapper in front of the operations
for tokens. -/
def Wraps : Phrase → Prop
  | .rule label _ _ =>
    ∃ op mode count w name, Meaning.of i label = .operation op ∧
      op.onRule mode count = .wraps w name
  | .token kind text _ =>
    ∃ op mode w name, Meaning.of i kind = .operation op ∧ op.onToken mode text = .wraps w name
  | _ => False

/-- The phrase is a rule that is labelled like a token, which cannot be called for it once it is
wrapped. -/
def IsFixed : Phrase → Prop
  | .rule label _ _ => ∃ t : Terminal, label = t.kind
  | _ => False

variable {i}

theorem walkRule_eq_error {ps : List Phrase} {label : String} {mark : Mark}
    {morsels : List Morsel} (few : morsels.length ≤ ps.length) {mode : Mode} {k : FaultKind}
    (h : walkRule i label mark morsels mode = .error k) :
    k = .malformed ∨ k = .visit ∧ ((Phrase.rule label mark ps).Stumbles i ∨
      (Phrase.rule label mark ps).IsFixed ∧ mode.wrapper? ≠ none) := by
  rw [walkRule] at h
  cases meaning : Meaning.of i label with
  | rule r =>
    rw [meaning] at h
    exact .inl (Morsel.ofBlueprint?_eq_error h)
  | terminal t =>
    have named := (Meaning.kind_of meaning).symm
    rw [meaning] at h
    rcases wrapped : mode.wrapper? with _ | w
    · rcases fixed : t.fixed? with _ | c
      · simp only [wrapped, fixed, Except.error.injEq] at h
        exact .inr ⟨h.symm, .inl (.inl ⟨t, named, fixed⟩)⟩
      · simp [wrapped, fixed] at h
    · simp only [wrapped, Except.error.injEq] at h
      exact .inr ⟨h.symm, .inr ⟨⟨t, named⟩, Option.some_ne_none w⟩⟩
  | operation op =>
    rw [meaning] at h
    obtain ⟨⟨m, fails⟩, rfl⟩ := Effect.walk_eq_error h
    exact .inr ⟨rfl, .inl (.inr ⟨op, mode, _, m, meaning, few, fails⟩)⟩
  | unknown =>
    rw [meaning] at h
    cases h
    exact .inl rfl

theorem walkToken_eq_error {kind text : String} {mark : Mark} {mode : Mode} {k : FaultKind}
    (h : walkToken i kind text mark mode = .error k) :
    k = .malformed ∨ k = .visit ∧ (Phrase.token kind text mark).Stumbles i := by
  rw [walkToken] at h
  split at h
  · cases meaning : Meaning.of i kind with
    | rule r =>
      rw [meaning] at h
      cases h
      exact .inr ⟨rfl, .inl ⟨r, (Meaning.label_of meaning).symm⟩⟩
    | terminal t =>
      rw [meaning] at h
      exact .inl (Morsel.ofBlueprint?_eq_error h)
    | operation op =>
      rw [meaning] at h
      obtain ⟨⟨m, fails⟩, rfl⟩ := Effect.walk_eq_error h
      exact .inr ⟨rfl, .inr ⟨op, mode, m, meaning, fails⟩⟩
    | unknown =>
      rw [meaning] at h
      cases h
  · cases h

theorem wrapper?_of_walkRule (ps : List Phrase) {label : String} {mark : Mark}
    {morsels : List Morsel} {mode mode' : Mode} {m : Morsel}
    (h : walkRule i label mark morsels mode = .ok (m, mode')) (wrapped : mode'.wrapper? ≠ none) :
    mode.wrapper? ≠ none ∨ (Phrase.rule label mark ps).Wraps i := by
  rw [walkRule] at h
  cases meaning : Meaning.of i label with
  | rule r =>
    rw [meaning] at h
    exact .inl (Morsel.mode_of_ofBlueprint? h ▸ wrapped)
  | terminal t =>
    rw [meaning] at h
    dsimp only at h
    split at h
    · cases h
      exact .inl wrapped
    · cases h
  | operation op =>
    rw [meaning] at h
    exact (Effect.wrapper?_of_walk h wrapped).imp_right fun ⟨w, name, wraps⟩ =>
      ⟨op, mode, _, w, name, meaning, wraps⟩
  | unknown =>
    rw [meaning] at h
    cases h

theorem wrapper?_of_walkToken {kind text : String} {mark : Mark} {mode mode' : Mode} {m : Morsel}
    (h : walkToken i kind text mark mode = .ok (m, mode')) (wrapped : mode'.wrapper? ≠ none) :
    mode.wrapper? ≠ none ∨ (Phrase.token kind text mark).Wraps i := by
  rw [walkToken] at h
  split at h
  · cases meaning : Meaning.of i kind with
    | rule r =>
      rw [meaning] at h
      cases h
    | terminal t =>
      rw [meaning] at h
      exact .inl (Morsel.mode_of_ofBlueprint? h ▸ wrapped)
    | operation op =>
      rw [meaning] at h
      exact (Effect.wrapper?_of_walk h wrapped).imp_right fun ⟨w, name, wraps⟩ =>
        ⟨op, mode, w, name, meaning, wraps⟩
    | unknown =>
      rw [meaning] at h
      cases h
      exact .inl wrapped
  · cases h
    exact .inl wrapped

variable (i)

/-- The operations for tokens are wrapped before the walk, or by one of the parts. -/
def AreWrapped (mode : Mode) (parts : List Phrase) : Prop :=
  mode.wrapper? ≠ none ∨ ∃ q ∈ parts, q.Wraps i

/-- Why a walk may fail: the tree is broken, a part of it stumbles, or is a rule that is handed to a
wrapped operation for tokens, or the tree is nested too deep. -/
def Excuses (mode : Mode) (k : FaultKind) (parts : List Phrase) (tooDeep : Prop) : Prop :=
  k = .malformed ∨
    (k = .visit ∧ ((∃ q ∈ parts, q.Stumbles i) ∨
      (∃ q ∈ parts, q.IsFixed) ∧ AreWrapped i mode parts)) ∨
    (k = i.exhaustion ∧ tooDeep)

variable {i}

theorem AreWrapped.mono {mode : Mode} {parts parts' : List Phrase}
    (h : AreWrapped i mode parts) (sub : ∀ q ∈ parts, q ∈ parts') : AreWrapped i mode parts' :=
  h.imp_right fun ⟨q, hq, wraps⟩ => ⟨q, sub q hq, wraps⟩

/-- An excuse for a part is one for the whole, after the modes that the walk went through. -/
theorem Excuses.mono {mode mode' : Mode} {k : FaultKind} {parts parts' : List Phrase}
    {tooDeep tooDeep' : Prop} (h : Excuses i mode k parts tooDeep)
    (sub : ∀ q ∈ parts, q ∈ parts')
    (wrapped : mode.wrapper? ≠ none → AreWrapped i mode' parts')
    (deeper : tooDeep → tooDeep') : Excuses i mode' k parts' tooDeep' := by
  obtain rfl | ⟨rfl, ⟨q, hq, stumbles⟩ | ⟨⟨q, hq, fixed⟩, before | ⟨r, hr, wraps⟩⟩⟩ |
    ⟨rfl, deep⟩ := h
  · exact .inl rfl
  · exact .inr (.inl ⟨rfl, .inl ⟨q, sub q hq, stumbles⟩⟩)
  · exact .inr (.inl ⟨rfl, .inr ⟨⟨q, sub q hq, fixed⟩, wrapped before⟩⟩)
  · exact .inr (.inl ⟨rfl, .inr ⟨⟨q, sub q hq, fixed⟩, .inr ⟨r, sub r hr, wraps⟩⟩⟩)
  · exact .inr (.inr ⟨rfl, deeper deep⟩)

/-- What phrases become is not more than there are phrases. -/
theorem length_le_of_walkAll {ps : List Phrase} {depth : Nat} {mode mode' : Mode}
    {ms : List Morsel} (h : walkAll i ps depth mode = .ok (ms, mode')) :
    ms.length ≤ ps.length := by
  induction ps generalizing mode ms with
  | nil =>
    cases h
    exact Nat.le_refl _
  | cons p more ih =>
    obtain ⟨⟨m, mode₁⟩, -, h⟩ := exists_ok_of_bind h
    obtain ⟨⟨ms', mode₂⟩, rest, h⟩ := exists_ok_of_bind h
    cases h
    exact Nat.le_trans (m.length_before_le ms') (Nat.succ_le_succ (ih rest))

mutual

/-- What is wrapped after a walk was wrapped before, or by a part. -/
theorem areWrapped_of_walk : ∀ (p : Phrase) (depth : Nat) {mode mode' : Mode} {m : Morsel},
    p.walk i depth mode = .ok (m, mode') → mode'.wrapper? ≠ none → AreWrapped i mode p.parts
  | .rule _ _ _, 0, _, _, _, h, _ => by cases h
  | .rule label mark ps, depth + 1, mode, mode', m, h, wrapped => by
    obtain ⟨⟨ms, mode₁⟩, below, h⟩ := exists_ok_of_bind h
    obtain before | wraps := wrapper?_of_walkRule ps h wrapped
    · exact (areWrapped_of_walkAll ps depth below before).mono fun q => mem_parts_of_mem
    · exact .inr ⟨_, mem_parts_self _, wraps⟩
  | .token _ _ _, 0, _, _, _, h, _ => by cases h
  | .token kind text mark, _ + 1, mode, mode', m, h, wrapped => by
    obtain before | wraps := wrapper?_of_walkToken h wrapped
    · exact .inl before
    · exact .inr ⟨_, mem_parts_self _, wraps⟩
  | .node n kind, _, _, _, _, h, wrapped => by
    cases h
    exact .inl wrapped
  | .other v, _, _, _, _, h, wrapped => by
    cases h
    exact .inl wrapped

theorem areWrapped_of_walkAll : ∀ (ps : List Phrase) (depth : Nat) {mode mode' : Mode}
    {ms : List Morsel}, walkAll i ps depth mode = .ok (ms, mode') → mode'.wrapper? ≠ none →
    AreWrapped i mode (partsOfAll ps)
  | [], _, _, _, _, h, wrapped => by
    cases h
    exact .inl wrapped
  | p :: more, depth, mode, mode', ms, h, wrapped => by
    obtain ⟨⟨m, mode₁⟩, first, h⟩ := exists_ok_of_bind h
    obtain ⟨⟨ms', mode₂⟩, rest, h⟩ := exists_ok_of_bind h
    cases h
    obtain before | ⟨q, hq, wraps⟩ := areWrapped_of_walkAll more depth rest wrapped
    · exact (areWrapped_of_walk p depth first before).mono fun q => List.mem_append_left _
    · exact .inr ⟨q, List.mem_append_right _ hq, wraps⟩

end

mutual

theorem excuses_of_walk : ∀ (p : Phrase) (depth : Nat) (mode : Mode) {k : FaultKind},
    p.walk i depth mode = .error k → Excuses i mode k p.parts (depth < p.height)
  | .rule _ _ _, 0, _, _, h => .inr (.inr ⟨(Except.error.inj h).symm, Nat.succ_pos _⟩)
  | .rule label mark ps, depth + 1, mode, k, h => by
    rw [walk] at h
    rcases below : walkAll i ps depth mode with k' | ⟨morsels, mode'⟩
    · rw [below] at h
      cases h
      exact (excuses_of_walkAll ps depth mode below).mono (fun q => mem_parts_of_mem) .inl
        Nat.succ_lt_succ
    · rw [below] at h
      obtain broken | ⟨visit, stumbles | ⟨fixed, wrapped⟩⟩ :=
        walkRule_eq_error (length_le_of_walkAll below) h
      · exact .inl broken
      · exact .inr (.inl ⟨visit, .inl ⟨_, mem_parts_self _, stumbles⟩⟩)
      · exact .inr (.inl ⟨visit, .inr ⟨⟨_, mem_parts_self _, fixed⟩,
          (areWrapped_of_walkAll ps depth below wrapped).mono fun q => mem_parts_of_mem⟩⟩)
  | .token _ _ _, 0, _, _, h => .inr (.inr ⟨(Except.error.inj h).symm, Nat.succ_pos _⟩)
  | .token kind text mark, _ + 1, mode, k, h => by
    obtain broken | ⟨visit, stumbles⟩ := walkToken_eq_error h
    · exact .inl broken
    · exact .inr (.inl ⟨visit, .inl ⟨_, mem_parts_self _, stumbles⟩⟩)
  | .node n kind, _, _, _, h => by cases h
  | .other v, _, _, _, h => by cases h

theorem excuses_of_walkAll : ∀ (ps : List Phrase) (depth : Nat) (mode : Mode) {k : FaultKind},
    walkAll i ps depth mode = .error k →
    Excuses i mode k (partsOfAll ps) (depth < heightOfAll ps)
  | [], _, _, _, h => by cases h
  | p :: more, depth, mode, k, h => by
    rw [walkAll] at h
    rcases first : p.walk i depth mode with k' | ⟨m, mode'⟩
    · rw [first] at h
      cases h
      exact (excuses_of_walk p depth mode first).mono (fun q => List.mem_append_left _) .inl
        fun deep => Nat.lt_of_lt_of_le deep (Nat.le_max_left ..)
    · rw [first] at h
      rcases rest : walkAll i more depth mode' with k' | ⟨ms, mode''⟩
      · simp only [bind, Except.bind, rest] at h
        cases h
        exact (excuses_of_walkAll more depth mode' rest).mono (fun q => List.mem_append_right _)
          (fun before => (areWrapped_of_walk p depth first before).mono fun q =>
            List.mem_append_left _)
          fun deep => Nat.lt_of_lt_of_le deep (Nat.le_max_right ..)
      · simp only [bind, Except.bind, rest] at h
        cases h

end

end Failing

/-! ## What a whole tree has to look like -/

/-- The phrase may stand in the rule: a token has to be a literal, a name or punctuation of the
rule, and anything else that is no node has to say that it is to be dropped. -/
def BelongsTo (r : Rule) : Phrase → Prop
  | .token kind text _ => (∃ t : Terminal, kind = t.kind) ∨ text ∈ r.punctuation
  | .other v => v.isDiscard = true
  | _ => True

/-- A rule is one of the grammar, and its parts may stand in it. -/
def IsContractual : Phrase → Prop
  | .rule label _ ps => ∃ r : Rule, label = r.label ∧ ∀ q ∈ ps, q.BelongsTo r
  | _ => True

end Phrase

/-- The morsel may be left in the rule: a token has to be punctuation of it. -/
def Morsel.BelongsTo (r : Rule) : Morsel → Prop
  | .token text => text ∈ r.punctuation
  | .node _ | .dropped => True
  | .other => False

namespace Rule

theorem belongsTo_of_operands {r : Rule} {morsels : List Morsel} {bs : List Blueprint}
    (h : r.operands morsels = some bs) : ∀ m ∈ morsels, m.BelongsTo r := by
  induction morsels generalizing bs with
  | nil => exact nofun
  | cons m more ih =>
    cases m with
    | token text =>
      rw [operands] at h
      split at h
      · next punctuation =>
        refine List.forall_mem_cons.2 ⟨?_, ih h⟩
        simpa [Morsel.BelongsTo] using punctuation
      · cases h
    | node b =>
      obtain ⟨bs', rest, -⟩ := Option.map_eq_some_iff.1 h
      exact List.forall_mem_cons.2 ⟨trivial, ih rest⟩
    | other => cases h
    | dropped => cases h

theorem belongsTo_of_only {r : Rule} {kind : NodeKind} {morsels : List Morsel} {b : Blueprint}
    (h : only kind morsels = some b) : ∀ m ∈ morsels, m.BelongsTo r := by
  rw [only.eq_def] at h
  split at h
  · exact List.forall_mem_cons.2 ⟨trivial, nofun⟩
  · cases h

/-- Whatever a rule accepts may stand in it. -/
theorem belongsTo_of_translate {r : Rule} {mark : Mark} {morsels : List Morsel} {b : Blueprint}
    (h : r.translate mark morsels = some b) : ∀ m ∈ morsels, m.BelongsTo r := by
  have gathered {r : Rule} (h : (r.operands morsels).bind (r.join mark) = some b) :
      ∀ m ∈ morsels, m.BelongsTo r := by
    obtain ⟨bs, operands, -⟩ := Option.bind_eq_some_iff.1 h
    exact belongsTo_of_operands operands
  cases r with
  | literal => exact belongsTo_of_only h
  | var => exact belongsTo_of_only h
  | group => exact gathered h
  | call => exact gathered h
  | chain op => exact gathered h
  | ternary => exact gathered h

end Rule

namespace Phrase

/-- What phrases become is there unless it is dropped. -/
theorem exists_mem_of_translateAll {ps : List Phrase} {ms : List Morsel}
    (h : translateAll ps = some ms) :
    ∀ q ∈ ps, ∃ m, q.translate = some m ∧ (m = .dropped ∨ m ∈ ms) := by
  induction ps generalizing ms with
  | nil => exact nofun
  | cons p more ih =>
    obtain ⟨m, first, h⟩ := Option.bind_eq_some_iff.1 h
    obtain ⟨ms', rest, h⟩ := Option.bind_eq_some_iff.1 h
    cases h
    refine List.forall_mem_cons.2 ⟨⟨m, first, ?_⟩, fun q hq => ?_⟩
    · exact (m.mem_before_or ms').symm
    · obtain ⟨m', became, there⟩ := ih rest q hq
      exact ⟨m', became, there.imp_right m.mem_before_of_mem⟩

/-- What became of a phrase may be left in the rule, so the phrase may stand in it. -/
theorem belongsTo_of_translate {r : Rule} {q : Phrase} {m : Morsel} (h : q.translate = some m)
    (belongs : m.BelongsTo r) : q.BelongsTo r := by
  cases q with
  | token kind text mark =>
    rw [translate] at h
    rcases terminal : Terminal.of? kind with _ | t
    · rw [terminal] at h
      cases h
      exact .inr belongs
    · exact .inl ⟨t, (Terminal.kind_of_of? terminal).symm⟩
  | other v =>
    cases h
    rw [Morsel.ofValue] at belongs
    split at belongs
    · assumption
    · exact absurd belongs id
  | _ => trivial

mutual

/-- A tree that is translated is contractual in all its parts. -/
theorem isContractual_of_translate : ∀ (p : Phrase) {m : Morsel}, p.translate = some m →
    ∀ q ∈ p.parts, q.IsContractual
  | .rule label mark ps, m, h => by
    rw [translate] at h
    obtain ⟨morsels, below, h⟩ := Option.bind_eq_some_iff.1 h
    refine List.forall_mem_cons.2 ⟨?_, isContractual_of_translateAll ps below⟩
    rcases rule : Rule.of? label with _ | r
    · rw [rule] at h
      cases h
    · rw [rule] at h
      obtain ⟨b, translated, -⟩ := Option.map_eq_some_iff.1 h
      refine ⟨r, (Rule.label_of_of? rule).symm, fun q hq => ?_⟩
      obtain ⟨m', became, rfl | there⟩ := exists_mem_of_translateAll below q hq
      · exact belongsTo_of_translate became trivial
      · exact belongsTo_of_translate became (Rule.belongsTo_of_translate translated m' there)
  | .token _ _ _, _, _ => List.forall_mem_singleton.2 trivial
  | .node _ _, _, _ => List.forall_mem_singleton.2 trivial
  | .other _, _, _ => List.forall_mem_singleton.2 trivial

theorem isContractual_of_translateAll : ∀ (ps : List Phrase) {ms : List Morsel},
    translateAll ps = some ms → ∀ q ∈ partsOfAll ps, q.IsContractual
  | [], _, _ => nofun
  | p :: more, ms, h => by
    obtain ⟨m, first, h⟩ := Option.bind_eq_some_iff.1 h
    obtain ⟨ms', rest, h⟩ := Option.bind_eq_some_iff.1 h
    exact List.forall_mem_append.2
      ⟨isContractual_of_translate p first, isContractual_of_translateAll more rest⟩

end

end Phrase

end Fallback
