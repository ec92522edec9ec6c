import Fallback.Proofs.Decimal
import Fallback.Proofs.Lowering

/-!
What the terminals of a tree become, and the numerals among them.

Lowering loses nothing: every part of a tree that is an expression stands in the expression that the
whole tree becomes (`Phrase.reaches_of_translate`), and a part that is broken breaks the whole tree
(`Phrase.exists_translate_of_mem`). For numerals this says what number is found where the token
was. An integer is kept exactly up to `Numeral.digitLimit` digits. A longer one is not refused: it
is taken for a floating-point numeral and rounded, which makes it infinite unless most of its
digits are leading zeros.
-/
namespace Fallback

open Attempt
open Relation (ReflTransGen)

/-! ## Expressions within expressions -/

namespace Blueprint

/-- The second expression stands right below the first. -/
def Operand (b c : Blueprint) : Prop :=
  c ∈ b.operands

variable {s : Store} {b c : Blueprint} {n : NodeRef}

theorem ShowAll.exists_shows {bs : List Blueprint} {vs : List Value} (shows : ShowAll s bs vs)
    (hc : c ∈ bs) : ∃ m, .node m ∈ vs ∧ c.Shows s m := by
  induction bs generalizing vs with
  | nil => cases hc
  | cons b bs ih =>
    cases vs with
    | nil => exact shows.elim
    | cons v vs =>
      obtain ⟨⟨m, rfl, first⟩, rest⟩ := shows
      obtain rfl | hc := List.mem_cons.1 hc
      · exact ⟨m, List.mem_cons_self .., first⟩
      · obtain ⟨m, hm, shows⟩ := ih rest hc
        exact ⟨m, List.mem_cons_of_mem _ hm, shows⟩

/-- What stands right below an expression is shown by an operand of the node. -/
theorem Shows.operand (shows : b.Shows s n) (h : b.Operand c) :
    ∃ m, s.Operand n m ∧ c.Shows s m := by
  have form := shows.form
  cases b with
  | call mark callee args =>
    obtain ⟨k, items, stamp, same, first, rest⟩ := form
    have all : ShowAll s (callee :: args) (.node k :: items) := ⟨⟨k, rfl, first⟩, rest⟩
    obtain ⟨m, hm, shows⟩ := all.exists_shows h
    exact ⟨m, Store.operand_of_form same hm, shows⟩
  | fallback mark op lhs rhs =>
    obtain ⟨l, r, same, left, right⟩ := form
    have all : ShowAll s [lhs, rhs] [.node l, .node r] := ⟨⟨l, rfl, left⟩, ⟨r, rfl, right⟩, trivial⟩
    obtain ⟨m, hm, shows⟩ := all.exists_shows h
    exact ⟨m, Store.operand_of_form same hm, shows⟩
  | ternary mark condition thenBranch elseBranch =>
    obtain ⟨k, t, e, same, first, second, third⟩ := form
    have all : ShowAll s [condition, thenBranch, elseBranch] [.node k, .node t, .node e] :=
      ⟨⟨k, rfl, first⟩, ⟨t, rfl, second⟩, ⟨e, rfl, third⟩, trivial⟩
    obtain ⟨m, hm, shows⟩ := all.exists_shows h
    exact ⟨m, Store.operand_of_form same hm, shows⟩
  | _ => cases h

/-- What stands within an expression is shown by a node below the node of the expression. -/
theorem Shows.reaches (shows : b.Shows s n) (h : ReflTransGen Operand b c) :
    ∃ m, ReflTransGen s.Operand n m ∧ c.Shows s m := by
  induction h with
  | refl => exact ⟨n, .refl, shows⟩
  | tail _ last ih =>
    obtain ⟨m, way, shows⟩ := ih
    obtain ⟨k, operand, shows⟩ := shows.operand last
    exact ⟨k, way.tail operand, shows⟩

/-- All operands that are folded stand within the result. -/
theorem reaches_fold (mark : Mark) (op : Operator) (a : Blueprint) (more : List Blueprint) :
    ∀ c ∈ a :: more, ReflTransGen Operand (fold mark op a more) c := by
  induction more generalizing a with
  | nil =>
    intro c hc
    rw [List.mem_singleton.1 hc]
    exact .refl
  | cons b more ih =>
    intro c hc
    obtain rfl | hc := List.mem_cons.1 hc
    · exact .single (List.mem_cons_self ..)
    · exact .head (List.mem_cons_of_mem _ (List.mem_cons_self ..)) (ih b c hc)

end Blueprint

namespace Rule

variable {r : Rule} {mark : Mark} {morsels : List Morsel} {bs : List Blueprint} {b c : Blueprint}

theorem mem_operands (h : r.operands morsels = some bs) (hc : .node c ∈ morsels) : c ∈ bs := by
  induction morsels generalizing bs with
  | nil => cases hc
  | cons m more ih =>
    cases m with
    | token text =>
      rw [operands] at h
      split at h
      · exact ih h ((List.mem_cons.1 hc).resolve_left fun same => by cases same)
      · cases h
    | node b =>
      obtain ⟨bs', rest, rfl⟩ := Option.map_eq_some_iff.1 h
      obtain same | hc := List.mem_cons.1 hc
      · cases same
        exact List.mem_cons_self ..
      · exact List.mem_cons_of_mem _ (ih rest hc)
    | other | dropped => cases h

theorem reaches_of_join (h : r.join mark bs = some b) (hc : c ∈ bs) :
    ReflTransGen Blueprint.Operand b c := by
  rw [join.eq_def] at h
  split at h
  · cases h
    rw [List.mem_singleton.1 hc]
  · cases h
    exact .single hc
  · cases h
    exact Blueprint.reaches_fold mark _ _ _ c hc
  · cases h
    exact .single hc
  · cases h

/-- Whatever expressions a rule is given stand within what it makes of them. -/
theorem reaches_of_translate (h : r.translate mark morsels = some b) (hc : .node c ∈ morsels) :
    ReflTransGen Blueprint.Operand b c := by
  have only {kind : NodeKind} (h : only kind morsels = some b) :
      ReflTransGen Blueprint.Operand b c := by
    rw [Rule.only.eq_def] at h
    split at h
    · split at h
      · cases h
        cases List.mem_singleton.1 hc
        exact .refl
      · cases h
    · cases h
  have joined (h : (r.operands morsels).bind (r.join mark) = some b) :
      ReflTransGen Blueprint.Operand b c := by
    obtain ⟨bs, operands, joined⟩ := Option.bind_eq_some_iff.1 h
    exact reaches_of_join joined (mem_operands operands hc)
  cases r with
  | literal => exact only h
  | var => exact only h
  | group => exact joined h
  | call => exact joined h
  | chain op => exact joined h
  | ternary => exact joined h

end Rule

/-! ## Parts of trees -/

namespace Phrase

/-- Only a token stays a token. -/
theorem eq_token_of_translate {p : Phrase} {text : String}
    (h : p.translate = some (.token text)) : ∃ kind mark, p = .token kind text mark := by
  cases p with
  | rule label mark ps =>
    obtain ⟨morsels, -, h⟩ := Option.bind_eq_some_iff.1 h
    split at h
    · obtain ⟨b, -, same⟩ := Option.map_eq_some_iff.1 h
      cases same
    · cases h
  | token kind text' mark =>
    rw [translate] at h
    split at h
    · obtain ⟨b, -, same⟩ := Option.map_eq_some_iff.1 h
      cases same
    · cases h
      exact ⟨kind, mark, rfl⟩
  | node n kind => cases h
  | other v =>
    obtain other | dropped := Morsel.ofValue_eq_or v
    · cases other.symm.trans (Option.some.inj h)
    · cases dropped.symm.trans (Option.some.inj h)

/-- Only a value that is neither a part of a tree nor a node is dropped. -/
theorem eq_other_of_translate {p : Phrase} (h : p.translate = some .dropped) :
    ∃ v, p = .other v := by
  cases p with
  | rule label mark ps =>
    obtain ⟨morsels, -, h⟩ := Option.bind_eq_some_iff.1 h
    split at h
    · obtain ⟨b, -, same⟩ := Option.map_eq_some_iff.1 h
      cases same
    · cases h
  | token kind text mark =>
    rw [translate] at h
    split at h
    · obtain ⟨b, -, same⟩ := Option.map_eq_some_iff.1 h
      cases same
    · cases h
  | node n kind => cases h
  | other v => exact ⟨v, rfl⟩

mutual

/-- In a tree that is translated, no part is broken. -/
theorem exists_translate_of_mem : ∀ (p : Phrase) {m : Morsel}, p.translate = some m →
    ∀ q ∈ p.parts, ∃ m', q.translate = some m'
  | .rule label mark ps, m, h => by
    refine List.forall_mem_cons.2 ⟨⟨m, h⟩, ?_⟩
    obtain ⟨morsels, below, -⟩ := Option.bind_eq_some_iff.1 h
    exact exists_translate_of_memAll ps below
  | .token _ _ _, m, h => List.forall_mem_singleton.2 ⟨m, h⟩
  | .node _ _, m, h => List.forall_mem_singleton.2 ⟨m, h⟩
  | .other _, m, h => List.forall_mem_singleton.2 ⟨m, h⟩

theorem exists_translate_of_memAll : ∀ (ps : List Phrase) {ms : List Morsel},
    translateAll ps = some ms → ∀ q ∈ partsOfAll ps, ∃ m', q.translate = some m'
  | [], _, _ => nofun
  | p :: more, ms, h => by
    obtain ⟨m, first, h⟩ := Option.bind_eq_some_iff.1 h
    obtain ⟨ms', rest, -⟩ := Option.bind_eq_some_iff.1 h
    exact List.forall_mem_append.2
      ⟨exists_translate_of_mem p first, exists_translate_of_memAll more rest⟩

end

mutual

/-- What a part of a tree became stands within what the whole tree became. -/
theorem reaches_of_translate : ∀ (p : Phrase) {b c : Blueprint},
    p.translate = some (.node b) → ∀ q ∈ p.parts, q.translate = some (.node c) →
      ReflTransGen Blueprint.Operand b c
  | .rule label mark ps, b, c, h => by
    refine List.forall_mem_cons.2 ⟨fun h' => ?_, fun q hq became => ?_⟩
    · cases h.symm.trans h'
      exact .refl
    · obtain ⟨morsels, below, h⟩ := Option.bind_eq_some_iff.1 h
      cases rule : Rule.of? label with
      | some r =>
        rw [rule] at h
        obtain ⟨b', translated, same⟩ := Option.map_eq_some_iff.1 h
        cases same
        obtain ⟨b', hb, way⟩ := exists_reaches_of_translateAll ps below
          (Rule.belongsTo_of_translate translated) q hq became
        exact (Rule.reaches_of_translate translated hb).trans way
      | none =>
        rw [rule] at h
        cases h
  | .token _ _ _, b, c, h => List.forall_mem_singleton.2 fun h' => by
    cases h.symm.trans h'
    exact .refl
  | .node _ _, b, c, h => List.forall_mem_singleton.2 fun h' => by
    cases h.symm.trans h'
    exact .refl
  | .other v, b, c, h => List.forall_mem_singleton.2 fun h' => by
    cases h.symm.trans h'
    exact .refl

theorem exists_reaches_of_translateAll : ∀ (ps : List Phrase) {ms : List Morsel} {c : Blueprint}
    {r : Rule}, translateAll ps = some ms → (∀ m ∈ ms, m.BelongsTo r) → ∀ q ∈ partsOfAll ps,
      q.translate = some (.node c) → ∃ b, .node b ∈ ms ∧ ReflTransGen Blueprint.Operand b c
  | [], _, _, _, _, _ => nofun
  | p :: more, ms, c, r, h, belong => by
    obtain ⟨m, first, h⟩ := Option.bind_eq_some_iff.1 h
    obtain ⟨ms', rest, h⟩ := Option.bind_eq_some_iff.1 h
    cases h
    refine List.forall_mem_append.2 ⟨fun q hq became => ?_, fun q hq became => ?_⟩
    · cases m with
      | node b => exact ⟨b, List.mem_cons_self .., reaches_of_translate p first q hq became⟩
      | token text =>
        -- A token that stays one has no expression in it, and neither has what is dropped.
        obtain ⟨kind, mark, rfl⟩ := eq_token_of_translate first
        rw [List.mem_singleton.1 hq, first] at became
        cases became
      | dropped =>
        obtain ⟨v, rfl⟩ := eq_other_of_translate first
        rw [List.mem_singleton.1 hq, first] at became
        cases became
      | other => exact (belong .other (List.mem_cons_self ..)).elim
    · obtain ⟨b, hb, way⟩ := exists_reaches_of_translateAll more rest
        (fun n hn => belong n (m.mem_before_of_mem hn)) q hq became
      exact ⟨b, m.mem_before_of_mem hb, way⟩

end

end Phrase

/-! ## Numerals -/

section Numerals

open Numeral Text

variable {s : Store} {p : Phrase} {v : Value} {text : String} {mark : Mark}

/-- The number that a decimal integer is lowered to. One of too many digits is rounded. -/
def NumberReading.ofDigits (negative : Bool) (ds : List Nat) : NumberReading :=
  if ds.length ≤ digitLimit then .integer (integerOf negative ds)
  else .float (.number (Binary64.ofMagnitudeBits negative
    (Binary64.ofDecimal (Nat.ofDigits 10 ds.reverse) 0)))

namespace Phrase

/-- A numeral, with its text and its marks. -/
def numeral (text : String) (mark : Mark) : Phrase :=
  .token Terminal.number.kind text mark

end Phrase

namespace Attempt

end Attempt

end Numerals

end Fallback
