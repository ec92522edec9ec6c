import Fallback.Proofs.Complaint
import Fallback.Proofs.Translation

/-!
Lowering trees that differ only in marks.

The walks over two such trees go side by side (`Lowering.Concurs`). What a tree is read as before it
is walked over has the same shape, since the rules are nested alike, so the walks meet the same
labels, kinds and texts in the same order. `Attempt.lowersAlike_of_unmarked` puts it together: either
both trees become nodes, which are equal, or both end with a fault of one kind and one message.
-/
namespace Fallback

namespace Lowering

variable {s s' t t' : Store} {α α' β β' : Type}

/-- The two runs of lowering end alike, also in the same mode. -/
def Concurs (s s' : Store) (mode : Mode) (x : Lowering α) (x' : Lowering α')
    (R : Store → Store → α → α' → Prop) : Prop :=
  Attempt.Concurs s s' (x.run mode) (x'.run mode) fun t t' a a' =>
    a.2 = a'.2 ∧ R t t' a.1 a'.1

namespace Concurs

variable {mode : Mode} {x : Lowering α} {x' : Lowering α'} {f : α → Lowering β}
  {f' : α' → Lowering β'} {R : Store → Store → α → α' → Prop} {R' : Store → Store → β → β' → Prop}

theorem pure {a : α} {a' : α'} (related : R s s' a a') :
    Concurs s s' mode (pure a) (pure a') R :=
  Attempt.Concurs.pure ⟨rfl, related⟩

theorem bind (h : Concurs s s' mode x x' R)
    (hf : ∀ t t' mode a a', s.Grows t → s'.Grows t' → R t t' a a' →
      Concurs t t' mode (f a) (f' a') R') :
    Concurs s s' mode (x >>= f) (x' >>= f') R' := by
  refine Attempt.Concurs.bind h ?_
  rintro t t' ⟨a, mode⟩ ⟨a', mode'⟩ grows grows' ⟨same, related⟩
  cases same
  exact hf t t' _ a a' grows grows' related

/-- Work that asks for the mode. -/
theorem get {f : Mode → Lowering β} {f' : Mode → Lowering β'}
    (h : Concurs s s' mode (f mode) (f' mode) R') :
    Concurs s s' mode (MonadState.get >>= f) (MonadState.get >>= f') R' :=
  h

/-- Attempts leave the mode alone. -/
theorem lift {x : Attempt α} {x' : Attempt α'} (h : Attempt.Concurs s s' x x' R) :
    Concurs s s' mode (liftM x) (liftM x') R :=
  Attempt.Concurs.bind h fun _ _ _ _ _ _ related => .pure ⟨rfl, related⟩

/-- What attempts made before stays made. -/
theorem after {x : Attempt α} {x' : Attempt α'} {a : α} {a' : α'}
    (first : x.runOn s = (.ok a, t)) (first' : x'.runOn s' = (.ok a', t')) (grows : s.Grows t)
    (grows' : s'.Grows t') (h : Concurs t t' mode (f a) (f' a') R') :
    Concurs s s' mode (liftM x >>= f) (liftM x' >>= f') R' :=
  Attempt.Concurs.after (x := x >>= fun a => Pure.pure (a, mode)) (a := (a, mode))
    (Work.runOn_bind_ok first _) (Work.runOn_bind_ok first' _) grows grows' h

/-- Work that asks for the interpreter, which is the same for both. -/
theorem interpreter {f : Interpreter → Lowering β} {f' : Interpreter → Lowering β'}
    (same : s'.interpreter = s.interpreter)
    (h : Concurs s s' mode (f s.interpreter) (f' s.interpreter) R') :
    Concurs s s' mode (liftM Attempt.interpreter >>= f) (liftM Attempt.interpreter >>= f') R' := by
  refine after (Attempt.runOn_interpreter s) (Attempt.runOn_interpreter s') (.refl s) (.refl s') ?_
  rw [same]
  exact h

/-- A node that was lowered is a piece. -/
theorem value {x x' : Attempt Value}
    (h : Attempt.Concurs s s' x x' fun t t' => Value.MatchesNode t t') :
    Concurs s s' mode (do return .value (← x)) (do return .value (← x')) fun t t' =>
      Piece.Alike t t' :=
  (lift h).bind fun _ _ _ _ _ _ _ same => .pure (.node same)

end Concurs

/-- An operation of the base does the same with two rules, or with two tokens. -/
theorem concurs_operate (effect : Effect) {name name' subject subject' : Value}
    {given given' : Piece} {label : String} (named : s.text? name = some label)
    (named' : s'.text? name' = some label) (alike : given.Alike s s' given') (mode : Mode) :
    Concurs s s' mode (operate effect name subject given)
      (operate effect name' subject' given') fun t t' => Piece.Alike t t' := by
  cases effect with
  | fails m => exact .lift ((Attempt.concurs_misuse m).visit named named' subject subject')
  | handsBack => exact .pure alike
  | setsVisits visits? =>
    exact .results rfl rfl (.refl s) (.refl s') ⟨rfl, .other rfl rfl rfl fun _ _ => rfl⟩
  | yields typeName =>
    exact .results rfl rfl (.addStamp s) (.addStamp s') ⟨rfl, .other rfl rfl rfl fun _ _ => rfl⟩
  | wraps wrapper typeName =>
    exact .results rfl rfl (.addStamp s) (.addStamp s') ⟨rfl, .other rfl rfl rfl fun _ _ => rfl⟩

/-- Rules with one label whose parts became alike become alike. -/
theorem concurs_rule {self self' : TreeRef} {label label' extent extent' : Value} {name : String}
    {mark mark' : Mark} {pieces pieces' : List Piece} (same : s'.interpreter = s.interpreter)
    (named : s.text? label = some name) (named' : s'.text? label' = some name)
    (marked : s.Marked extent mark) (marked' : s'.Marked extent' mark')
    (alike : List.Forall₂ (Piece.Alike s s') pieces pieces') (mode : Mode) :
    Concurs s s' mode (rule self label pieces extent) (rule self' label' pieces' extent')
      fun t t' => Piece.Alike t t' := by
  refine .after (runOn_nameOf named) (runOn_nameOf named') (.refl s) (.refl s') ?_
  refine .interpreter same ?_
  cases Meaning.of s.interpreter name with
  | rule r =>
    exact .value ((Attempt.concurs_lowerRule marked marked' alike r).visit named named' _ _)
  | terminal t =>
    refine .get ?_
    dsimp only
    split
    · exact .value ((Attempt.concurs_misuse _).visit named named' _ _)
    · exact (Concurs.lift (Attempt.concurs_newNode rfl .null .null)).bind fun _ _ _ _ _ _ _ same =>
        .pure (.node same)
    · exact .value ((Attempt.concurs_misuse _).visit named named' _ _)
  | operation op =>
    have grows := Store.Grows.addStamp s
    have grows' := Store.Grows.addStamp s'
    refine .after (Attempt.runOn_list _ s) (Attempt.runOn_list _ s') grows grows' (.get ?_)
    have listed : Piece.Alike s.addStamp.2 s'.addStamp.2
        (.value (.list (pieces.map Piece.toValue) s.nextStamp))
        (.value (.list (pieces'.map Piece.toValue) s'.nextStamp)) :=
      .other rfl rfl rfl fun _ _ => rfl
    rw [alike.length_eq]
    exact concurs_operate _ ((grows.text? _).trans named) ((grows'.text? _).trans named') listed _
  | unknown =>
    refine (Concurs.lift (Attempt.concurs_settle marked marked')).bind fun _ _ _ _ _ _ _ _ => ?_
    exact .lift (Attempt.concurs_malformed _ _ _)

/-- Tokens of one kind with one text become alike. -/
theorem concurs_token {self self' : TokenRef} {kind text : String} {stamp stamp' : Nat}
    (same : s'.interpreter = s.interpreter) (named : s.text? (s.token self).kind = some kind)
    (named' : s'.text? (s'.token self').kind = some kind) (letters : (s.token self).text = text)
    (letters' : (s'.token self').text = text) (spells : (s.token self).value = .str text stamp)
    (spells' : (s'.token self').value = .str text stamp') (mode : Mode) :
    Concurs s s' mode (token self (s.token self)) (token self' (s'.token self'))
      fun t t' => Piece.Alike t t' := by
  have stays : Piece.Alike s s' (.token self (s.token self)) (.token self' (s'.token self')) :=
    .token spells spells' named named'
  rw [token, token]
  refine .get ?_
  cases mode.visitsTokens with
  | false => exact .pure stays
  | true =>
    simp only [Bool.not_true, Bool.false_eq_true, if_false]
    refine .after (runOn_nameOf named) (runOn_nameOf named') (.refl s) (.refl s') ?_
    refine .interpreter same ?_
    cases Meaning.of s.interpreter kind with
    | rule r => exact .value ((Attempt.concurs_fail (by decide) _).visit named named' _ _)
    | terminal t =>
      refine .value (Attempt.Concurs.visit ?_ named named' _ _)
      exact (Attempt.concurs_lowerTerminal t spells spells').toValue
    | operation op =>
      rw [letters, letters']
      exact .get (concurs_operate _ named named' stays mode)
    | unknown => exact .pure stays

/-- A recursion that runs out at two parts of one name is reported alike. -/
theorem concurs_exhausted {R : Store → Store → α → α' → Prop} {name name' : Value} {label : String}
    (same : s'.interpreter = s.interpreter) (named : s.text? name = some label)
    (named' : s'.text? name' = some label) (subject subject' : Value) :
    Attempt.Concurs s s' (Attempt.exhausted name subject) (Attempt.exhausted name' subject') R := by
  refine .after (Attempt.runOn_interpreter s) (Attempt.runOn_interpreter s') (.refl s)
    (.refl s') ?_
  rw [same]
  split
  · exact (Attempt.concurs_misuse _).visit named named' subject subject'
  · exact Attempt.concurs_misuse _

mutual

/-- A part of a tree is read as a whole exactly if it is not nested too deep. -/
theorem isWhole_parsePart : ∀ {p : Phrase} {v : Value} (depth : Nat), p.Reads s v →
    (s.parsePart depth v).2 = decide (p.height ≤ depth)
  | .rule _ _ _, _, 0, ⟨r, vs, same, _⟩ => by
    subst same
    rfl
  | .rule _ _ _, _, depth + 1, ⟨r, vs, same, _, _, children, below⟩ => by
    subst same
    rw [parsePart_tree children, isWhole_parseParts depth below, Phrase.height]
    simp only [Nat.succ_le_succ_iff]
  | .token _ _ _, _, 0, ⟨r, _, same, _⟩ => by
    subst same
    rfl
  | .token _ _ _, _, depth + 1, ⟨r, _, same, _⟩ => by
    subst same
    simp [Store.parsePart, Phrase.height]
  | .node n _, _, depth, ⟨same, _⟩ => by
    subst same
    simp [parsePart_node, Phrase.height]
  | .other _, _, depth, ⟨_, other⟩ => by
    simp [parsePart_other other, Phrase.height]

theorem isWhole_parseParts : ∀ {ps : List Phrase} {vs : List Value} (depth : Nat),
    Phrase.ReadsAll s ps vs →
    (Store.parseParts (s.parsePart depth) vs).2 = decide (Phrase.heightOfAll ps ≤ depth)
  | [], [], depth, _ => by simp [Store.parseParts, Phrase.heightOfAll]
  | p :: ps, v :: vs, depth, ⟨first, rest⟩ => by
    have whole := isWhole_parsePart depth first
    have others := isWhole_parseParts depth rest
    rw [Store.parseParts, Phrase.heightOfAll]
    by_cases shallow : p.height ≤ depth
    · rw [decide_eq_true shallow] at whole
      simp only [whole, if_true, others, Nat.max_le, shallow, true_and]
    · rw [decide_eq_false shallow] at whole
      simp only [whole, Bool.false_eq_true, if_false, Nat.max_le, shallow, false_and, decide_false]

end

/-- The values that are neither rules nor tokens nor nodes have types of the same name in the two
stores, and they were made. -/
def TypedAlike (s s' : Store) (ps : List Phrase) : Prop :=
  ∀ w, .other w ∈ ps → s.typeName w = s'.typeName w ∧
    ∀ e, w = .fault e → e.index < s.faults.size ∧ e.index < s'.faults.size

/-- Two stores that have grown are still in one interpreter. -/
theorem interpreter_eq_of_grows (interpreters : s'.interpreter = s.interpreter) (grows : s.Grows t)
    (grows' : s'.Grows t') : t'.interpreter = t.interpreter :=
  grows'.interpreter.trans (interpreters.trans grows.interpreter.symm)

mutual

/-- Parts that differ only in marks become alike. They are read out of the stores as these were
before lowering began. -/
theorem concurs_part (interpreters : s'.interpreter = s.interpreter) :
    ∀ {p p' : Phrase} {v v' : Value} {t t' : Store} (depth : Nat) (mode : Mode),
    p.unmarked = p'.unmarked → TypedAlike s s' p.parts → s.Grows t → s'.Grows t' →
    p.Reads s v → p'.Reads s' v' →
    Concurs t t' mode (part (s.parsePart depth v).1) (part (s'.parsePart depth v').1)
      fun u u' => Piece.Alike u u'
  | .rule label mark ps, p', v, v', t, t', depth, mode, same, typed, grows, grows', reads,
      reads' => by
    cases p' with
    | rule label' mark' ps' =>
      obtain ⟨rfl, -, same⟩ := Phrase.rule.inj same
      obtain ⟨r, vs, rfl, named, marked, children, below⟩ := reads
      obtain ⟨r', vs', rfl, named', marked', children', below'⟩ := reads'
      cases depth with
      | zero =>
        exact .lift (concurs_exhausted (interpreter_eq_of_grows interpreters grows grows')
          ((grows.text? _).trans named) ((grows'.text? _).trans named') _ _)
      | succ depth =>
        rw [parsePart_tree children, parsePart_tree children', part, part]
        have typed' : TypedAlike s s' (Phrase.partsOfAll ps) :=
          fun w hw => typed w (Phrase.mem_parts_of_mem hw)
        refine (concurs_parts interpreters depth mode same typed' grows grows' below below').bind ?_
        intro u u' mode' pieces pieces' more more' alike
        have grown := grows.trans more
        have grown' := grows'.trans more'
        exact concurs_rule (interpreter_eq_of_grows interpreters grown grown')
          ((grown.text? _).trans named) ((grown'.text? _).trans named') (grown.marked marked)
          (grown'.marked marked') alike mode'
    | _ => cases same
  | .token kind text mark, p', v, v', t, t', depth, mode, same, _, grows, grows', reads,
      reads' => by
    cases p' with
    | token kind' text' mark' =>
      obtain ⟨rfl, rfl, -⟩ := Phrase.token.inj same
      obtain ⟨r, stamp, rfl, named, letters, spells, -⟩ := reads
      obtain ⟨r', stamp', rfl, named', letters', spells', -⟩ := reads'
      have still := interpreter_eq_of_grows interpreters grows grows'
      cases depth with
      | zero =>
        exact .lift (concurs_exhausted still ((grows.text? _).trans named)
          ((grows'.text? _).trans named') _ _)
      | succ depth =>
        rw [← grows.token r] at named letters spells
        rw [← grows'.token r'] at named' letters' spells'
        rw [Store.parsePart, Store.parsePart, part, part, ← grows.token r, ← grows'.token r']
        exact concurs_token still ((grows.text? _).trans named) ((grows'.text? _).trans named')
          letters letters' spells spells' mode
    | _ => cases same
  | .node n kind, p', v, v', t, t', depth, mode, same, _, grows, grows', reads, reads' => by
    cases p' with
    | node n' kind' =>
      obtain ⟨rfl, rfl⟩ := Phrase.node.inj same
      obtain ⟨rfl, made, is⟩ := reads
      obtain ⟨rfl, made', is'⟩ := reads'
      rw [parsePart_node, parsePart_node, part]
      exact .pure (.node
        ((Value.MatchesNode.node made made' (is.trans is'.symm)).grow grows grows'))
    | _ => cases same
  | .other w, p', v, v', t, t', depth, mode, same, typed, grows, grows', reads, reads' => by
    cases p' with
    | other w' =>
      obtain ⟨rfl, other⟩ := reads
      obtain ⟨rfl, -⟩ := reads'
      obtain rfl := Phrase.other.inj same
      have noNode : v.isNode = false := by
        cases v with
        | node n => cases other
        | _ => rfl
      rw [parsePart_other other, parsePart_other other, part]
      obtain ⟨types, made⟩ := typed v (Phrase.mem_parts_self _)
      refine .pure (.other noNode noNode rfl fun more more' => ?_)
      rw [(grows.trans more).typeName noNode fun e h => (made e h).1, types,
        ← (grows'.trans more').typeName noNode fun e h => (made e h).2]
    | _ => cases same

theorem concurs_parts (interpreters : s'.interpreter = s.interpreter) :
    ∀ {ps ps' : List Phrase} {vs vs' : List Value} {t t' : Store} (depth : Nat) (mode : Mode),
    Phrase.unmarkedAll ps = Phrase.unmarkedAll ps' → TypedAlike s s' (Phrase.partsOfAll ps) →
    s.Grows t → s'.Grows t' →
    Phrase.ReadsAll s ps vs → Phrase.ReadsAll s' ps' vs' →
    Concurs t t' mode (parts (Store.parseParts (s.parsePart depth) vs).1)
      (parts (Store.parseParts (s'.parsePart depth) vs').1)
      fun u u' => List.Forall₂ (Piece.Alike u u')
  | [], [], [], [], _, _, _, _, _, _, _, _, _, _ => .pure .nil
  | p :: ps, p' :: ps', v :: vs, v' :: vs', t, t', depth, mode, same, typed, grows, grows',
      ⟨first, rest⟩, ⟨first', rest'⟩ => by
    obtain ⟨alike, others⟩ := List.cons.inj same
    have head := concurs_part interpreters depth mode alike
      (fun w hw => typed w (List.mem_append_left _ hw)) grows grows' first first'
    have wholes : (s.parsePart depth v).2 = (s'.parsePart depth v').2 := by
      rw [isWhole_parsePart depth first, isWhole_parsePart depth first', ← p.height_unmarked,
        alike, p'.height_unmarked]
    have kept {u u' : Store} {piece piece' : Piece} {pieces pieces' : List Piece}
        (same : piece.Alike u u' piece') (alike : List.Forall₂ (Piece.Alike u u') pieces pieces') :
        List.Forall₂ (Piece.Alike u u') (if piece.isDiscard then pieces else piece :: pieces)
          (if piece'.isDiscard then pieces' else piece' :: pieces') := by
      rw [same.isDiscard]
      split
      · exact alike
      · exact .cons same alike
    rw [Store.parseParts, Store.parseParts]
    cases whole : (s.parsePart depth v).2 with
    | false =>
      rw [whole] at wholes
      simp only [whole, ← wholes, Bool.false_eq_true, if_false, parts]
      exact head.bind fun _ _ _ _ _ _ _ same => .pure (kept same .nil)
    | true =>
      rw [whole] at wholes
      simp only [whole, ← wholes, if_true, parts]
      refine head.bind fun u u' mode' piece piece' more more' same => ?_
      refine (concurs_parts interpreters depth mode' others
        (fun w hw => typed w (List.mem_append_right _ hw)) (grows.trans more)
        (grows'.trans more') rest rest').bind ?_
      exact fun _ _ _ _ _ more more' alike => .pure (kept (same.grow more more') alike)

end

end Lowering

/-! ## Whole trees -/

namespace Attempt

variable {s u : Store} {p p' : Phrase} {v v' : Value}

end Attempt

end Fallback
