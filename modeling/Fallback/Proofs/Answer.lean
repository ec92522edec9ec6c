import Fallback.Proofs.Likeness

/-!
What like stores answer.

A question that is asked of like values in like stores has the same answer, or like values as
answers: the name of a type, the attributes, the items, the truth, and last `Store.Like.render`, the
text of a value. A text tells the values apart that are being written around the value, and nothing
else about what they are as things.
-/
namespace Fallback

open List (Forall₂)

variable {ρ : Pairing} {s t : Store}

/-! ## Lists of like values -/

theorem Environment.Like.append {a b a' b' : Environment} (h : a.Like ρ b) (k : a'.Like ρ b') :
    Environment.Like ρ (a ++ a') (b ++ b') :=
  List.rel_append h k

theorem Environment.Like.cons {a b : Environment} {v w : Value} (name : String) (h : v.Like ρ w)
    (k : a.Like ρ b) : Environment.Like ρ ((name, v) :: a) ((name, w) :: b) :=
  Forall₂.cons ⟨rfl, h⟩ k

theorem Environment.Like.nil : Environment.Like ρ [] [] :=
  Forall₂.nil

/-- Names are bound to like values one by one. -/
theorem Value.AllLike.zip {vs ws : List Value} (h : AllLike ρ vs ws) (names : List String) :
    Environment.Like ρ (names.zip vs) (names.zip ws) := by
  induction h generalizing names with
  | nil =>
    rw [List.zip_nil_right]
    exact .nil
  | cons like _ ih =>
    cases names with
    | nil => exact .nil
    | cons name names => exact .cons name like (ih names)

theorem Form.Like.fields {f g : Form} (h : f.Like ρ g) : f.fields.Like ρ g.fields := by
  rw [Form.fields, Form.fields, h.kind]
  exact h.values.zip _

/-- Where nothing is like nothing, null may stand for it. -/
theorem Value.Like.getD {v? w? : Option Value} (h : Option.Rel (Value.Like ρ) v? w?) :
    (v?.getD .null).Like ρ (w?.getD .null) := by
  cases h with
  | none => exact .null
  | some like => exact like

/-- What is made of like values one by one is the same. -/
theorem Value.AllLike.mapM_eq {α : Type} {f g : Value → Except Misuse α} {vs ws : List Value}
    (h : AllLike ρ vs ws) (same : ∀ {v w}, v.Like ρ w → f v = g w) : vs.mapM f = ws.mapM g := by
  induction h with
  | nil => rfl
  | cons like _ ih => rw [List.mapM_cons, List.mapM_cons, same like, ih]

theorem Environment.Like.namedTexts_eq {f g : Value → Shown} {a b : Environment}
    (h : a.Like ρ b) (same : ∀ {v w}, v.Like ρ w → f v = g w) :
    namedTexts f a = namedTexts g b := by
  induction h with
  | nil => rfl
  | cons both _ ih =>
    rw [namedTexts, namedTexts] at ih ⊢
    rw [List.mapM_cons, List.mapM_cons, both.1, same both.2, ih]

/-! ## Attributes of cells -/

theorem Node.Like.attributes {n m : Node} (h : n.Like ρ m) :
    n.attributes.Like ρ m.attributes :=
  .append h.form.fields (.cons _ h.place h.extras)

theorem Fault.Like.attributes {e f : Fault} (h : e.Like ρ f) :
    e.attributes.Like ρ f.attributes := by
  refine .cons _ h.args (.cons _ h.chained ?_)
  rw [h.kind]
  split
  · exact .cons _ h.place h.extras
  · exact h.extras

theorem Result.Like.typeName_eq {r q : Result} (h : r.Like ρ q) : r.typeName = q.typeName := by
  cases h <;> rfl

theorem OutcomeCell.Like.attributes {o p : OutcomeCell} (h : o.Like ρ p) :
    o.attributes.Like ρ p.attributes := by
  obtain ⟨result, extras⟩ := o
  obtain ⟨result', extras'⟩ := p
  obtain ⟨result, extras⟩ := h
  cases result with
  | success like => exact .cons _ like extras
  | raised like => exact .cons _ like extras

theorem Callable.Like.attributes {f g : Callable} (h : f.Like ρ g) :
    f.attributes.Like ρ g.attributes :=
  .cons _ h.routine (.cons _ h.name (.cons _ h.calls h.extras))

theorem Token.Like.attributes {a b : Token} (h : a.Like ρ b) :
    a.attributes.Like ρ b.attributes := by
  refine .cons _ h.kind (.cons _ h.value ?_)
  induction Token.markNames with
  | nil => exact .nil
  | cons name names ih => exact .cons name (.getD (h.marks.get? name)) ih

theorem Tree.Like.attributes {a b : Tree} (h : a.Like ρ b) :
    a.attributes.Like ρ b.attributes :=
  .cons _ h.label (.cons _ h.children (.cons _ h.extent (.cons _ h.extent h.extras)))

/-- The callables behind one reference are the same up to a pairing. -/
theorem Store.RestLike.callable (h : s.RestLike ρ t) (f : CallableRef) :
    (s.callable f).Like ρ (t.callable f) := by
  have lists : ∀ {fs gs : List Callable} (i : Nat), Forall₂ (Callable.Like ρ) fs gs →
      Callable.Like ρ (fs[i]?.getD default) (gs[i]?.getD default) := by
    intro fs gs i all
    induction all generalizing i with
    | nil => exact ⟨rfl, .null, .null, .null, .nil⟩
    | cons like _ ih =>
      cases i with
      | zero => exact like
      | succ i => exact ih i
  rw [Store.callable, Store.callable, ← Array.getElem?_toList, ← Array.getElem?_toList]
  exact lists f.index h.callables

namespace Store.Like

variable (h : s.Like ρ t) {v w : Value}
include h

/-! ## Types and attributes -/

/-- Like values are of the same type. -/
theorem typeName (like : v.Like ρ w) : s.typeName v = t.typeName w := by
  cases like with
  | @plain v plain =>
    cases v with
    | node n => exact congrArg NodeKind.name (h.rest.node n).form.kind
    | object o =>
      simp only [Store.typeName, HostObject.typeName, (h.rest.object o).testsTruth,
        (h.rest.object o).hasSize]
    | fault | outcome => cases plain
    | _ => rfl
  | fault paired => exact congrArg FaultKind.name (h.faults.like paired).kind
  | outcome counts => exact (h.outcomes.like counts).result.typeName_eq
  | _ => rfl

theorem hostTypeName (like : v.Like ρ w) : s.hostTypeName v = t.hostTypeName w := by
  have same := h.typeName like
  cases like with
  | @plain v plain =>
    cases v with
    | position p => rfl
    | _ => exact same
  | _ => exact same

/-- Like values have the same attributes, up to the pairing. -/
theorem attributes (like : v.Like ρ w) : (s.attributes v).Like ρ (t.attributes w) := by
  cases like with
  | @plain v plain =>
    cases v with
    | node n => exact (h.rest.node n).attributes
    | callable f => exact (h.rest.callable f).attributes
    | object o => exact (h.rest.object o).attributes
    | token r => exact (h.rest.token r).attributes
    | tree r => exact (h.rest.tree r).attributes
    | extent x => exact h.rest.extent x
    | position p => exact h.rest.position p
    | fault | outcome => cases plain
    | _ => exact .nil
  | fault paired => exact (h.faults.like paired).attributes
  | outcome counts => exact (h.outcomes.like counts).attributes
  | _ => exact .nil

theorem attribute? (like : v.Like ρ w) (name : String) :
    Option.Rel (Value.Like ρ) (s.attribute? v name) (t.attribute? w name) :=
  (h.attributes like).get? name

/-- The places of like values are like one another. -/
theorem placeOf (like : v.Like ρ w) : (s.placeOf v).Like ρ (t.placeOf w) :=
  .getD (h.attribute? like placeName)

theorem said? (like : v.Like ρ w) (name : String) :
    Option.Rel (Value.Like ρ) (s.said? v name) (t.said? w name) := by
  have both := h.attribute? like name
  rw [Store.said?, Store.said?]
  generalize s.attribute? v name = v? at both
  generalize t.attribute? w name = w? at both
  cases both with
  | none => exact .none
  | @some v w like =>
    rw [Option.filter_some, Option.filter_some, like.isNull]
    split
    · exact .some like
    · exact .none

/-- Like values both tell a line, or none of them does. -/
theorem isSome_line? (like : v.Like ρ w) : (s.line? v).isSome = (t.line? w).isSome := by
  have both := h.said? like lineName
  rw [Store.line?, Store.line?]
  generalize s.said? v lineName = v? at both
  generalize t.said? w lineName = w? at both
  cases both <;> rfl

/-! ## Items and truth -/

theorem text? (like : v.Like ρ w) : s.text? v = t.text? w := by
  cases like with
  | @plain v plain =>
    cases v with
    | token r => exact congrArg some (h.rest.token r).text
    | _ => rfl
  | _ => rfl

theorem addedTo (stamp : Nat) : Value.AllLike ρ (s.addedTo stamp) (t.addedTo stamp) := by
  have all := h.rest.additions
  rw [Store.addedTo, Store.addedTo]
  generalize s.additions.toList = as at all
  generalize t.additions.toList = bs at all
  induction all with
  | nil => exact .nil
  | cons both _ ih =>
    rw [List.filter_cons, List.filter_cons, both.stamp]
    split
    · exact .cons both.item ih
    · exact ih

/-- Like values hold like items. -/
theorem items? (like : v.Like ρ w) :
    Option.Rel (Value.AllLike ρ) (s.items? v) (t.items? w) := by
  have letters (text : String) : Value.AllLike ρ
      (text.toList.map fun c => .str (String.singleton c) noStamp)
      (text.toList.map fun c => .str (String.singleton c) noStamp) := by
    induction text.toList with
    | nil => exact .nil
    | cons c cs ih => exact .cons (.str _ _) ih
  cases like with
  | @plain v plain =>
    cases v with
    | str text stamp => exact .some (letters text)
    | token r =>
      have same := (h.rest.token r).text
      show Option.Rel _ (some (((s.token r).text).toList.map _))
        (some (((t.token r).text).toList.map _))
      rw [same]
      exact .some (letters _)
    | list | tuple | dict => cases plain
    | _ => exact .none
  | list stamp all => exact .some (List.rel_append all (h.addedTo stamp))
  | tuple stamp all => exact .some all
  | dict stamp keys values => exact .some keys
  | fault | outcome => exact .none

theorem length? (like : v.Like ρ w) : s.length? v = t.length? w := by
  have both := h.items? like
  rw [Store.length?, Store.length?]
  generalize s.items? v = vs? at both
  generalize t.items? w = ws? at both
  cases both with
  | none => rfl
  | some all => exact congrArg some all.length_eq

/-- Like values are both true or both false. -/
theorem truth (like : v.Like ρ w) : s.truth v = t.truth w := by
  have length := h.length? like
  cases like with
  | @plain v plain =>
    cases v with
    | null | bool | int | float => rfl
    | _ => simp only [Store.truth, length]
  | _ => simp only [Store.truth, length]

/-! ## Texts -/

/-- The text of a place is the same if the texts of like values are. -/
theorem placeText_eq {f g : Value → Shown} {e e' : Fault} (like : e.Like ρ e')
    (same : ∀ {v w}, v.Like ρ w → f v = g w) : s.placeText f e = t.placeText g e' := by
  have place : e.place.Like ρ e'.place := like.place
  have lines := h.said? place lineName
  have columns := h.attribute? place columnName
  have told := h.said? place columnName
  simp only [Store.placeText, Store.line?, Store.column?, like.kind]
  generalize s.said? e.place lineName = line at lines
  generalize t.said? e'.place lineName = line' at lines
  generalize s.attribute? e.place columnName = column at columns
  generalize t.attribute? e'.place columnName = column' at columns
  generalize s.said? e.place columnName = shown at told
  generalize t.said? e'.place columnName = shown' at told
  cases lines with
  | none => rfl
  | some line =>
    have text := same line
    cases told with
    | none =>
      cases columns with
      | none => simp only [text, Option.map_none]
      | some column => simp only [text, same column, Option.map_some]
    | some column' =>
      cases columns with
      | none => simp only [text, same column', Option.map_none]
      | some column => simp only [text, same column, same column', Option.map_some]

omit h in
/-- A thing is among some things on both sides or on neither. -/
theorem contains_eq (faults : s.FaultsLike ρ t) {is js : List Identity} {i j : Identity}
    (all : Forall₂ (Identity.Like ρ) is js) (like : i.Like ρ j) :
    is.contains i = js.contains j := by
  induction all with
  | nil => rfl
  | cons both _ ih =>
    simp only [List.contains_cons, ih, beq_eq_decide, faults.identity_iff like both]

omit h in
theorem mapM_entries_eq {f g : Value → Shown} {es es' : List (Value × Value)}
    (keys : Value.AllLike ρ (es.map Prod.fst) (es'.map Prod.fst))
    (values : Value.AllLike ρ (es.map Prod.snd) (es'.map Prod.snd))
    (same : ∀ {v w}, v.Like ρ w → f v = g w) :
    (es.mapM fun kv => do return (← f kv.1) ++ ": " ++ (← f kv.2)) =
      es'.mapM fun kv => do return (← g kv.1) ++ ": " ++ (← g kv.2) := by
  induction es generalizing es' with
  | nil =>
    cases es' with
    | nil => rfl
    | cons e es' => cases keys
  | cons e es ih =>
    cases es' with
    | nil => cases keys
    | cons e' es' =>
      obtain ⟨key, keys⟩ := List.forall₂_cons.1 keys
      obtain ⟨value, values⟩ := List.forall₂_cons.1 values
      rw [List.mapM_cons, List.mapM_cons, ih keys values, same key, same value]

section Parts

variable {depth : Nat} {within within' : List Identity}
  (part : ∀ {v w : Value} (style : Style), v.Like ρ w →
    s.render depth within style v = t.render depth within' style w)
include part

/-- Paired faults have the same text if like values do within it. -/
theorem render_fault {x y : FaultRef} (style : Style) (paired : ρ.faults x y) :
    s.render (depth + 1) within style (.fault x) =
      t.render (depth + 1) within' style (.fault y) := by
  have cell := h.faults.like paired
  have place := h.placeText_eq cell (part .plain)
  obtain ⟨kind, args, -, -, -⟩ := cell
  have whole := part .quoted args
  simp only [Store.render, kind]
  generalize (s.fault x).args = held at args whole
  generalize (t.fault y).args = held' at args whole
  -- Only a tuple that has one item, or none in a message, is not written as a whole.
  cases style <;> cases args with
  | plain plain =>
    cases held with
    | tuple => cases plain
    | _ => simp only [whole, place]
  | tuple stamp all =>
    cases all with
    | nil => simp only [whole, place]
    | cons like more =>
      cases more with
      | nil => simp only [part _ like, place]
      | cons => simp only [whole, place]
  | _ => simp only [whole, place]

/-- Outcomes that count have the same text if like values do within it. -/
theorem render_outcome {o : OutcomeRef} (style : Style) (counts : ρ.outcomes o) :
    s.render (depth + 2) within style (.outcome o) =
      t.render (depth + 2) within' style (.outcome o) := by
  have cell := (h.outcomes.like counts).result
  rcases first : (s.outcome o).result with v | v <;>
  rcases second : (t.outcome o).result with w | w <;>
  rw [first, second] at cell <;>
  cases cell with
  | _ like =>
    unfold Store.render
    simp only [first, second, part _ like, h.typeName like]

end Parts

/-- Like values have the same text, while like things are being written around them. -/
theorem render (depth : Nat) {within within' : List Identity} (style : Style)
    (around : Forall₂ (Identity.Like ρ) within within') (like : v.Like ρ w) :
    s.render depth within style v = t.render depth within' style w := by
  induction depth using Nat.strongRecOn generalizing within within' style v w with
  | ind depth ih =>
    cases depth with
    | zero => rfl
    | succ depth =>
      have part {v w : Value} (style : Style) (like : v.Like ρ w) :
          s.render depth within style v = t.render depth within' style w :=
        ih depth (Nat.lt_succ_self _) style around like
      have inner {v' w' : Value} (style : Style) (like' : v'.Like ρ w') :
          s.render depth (v.identity :: within) style v' =
            t.render depth (w.identity :: within') style w' :=
        ih depth (Nat.lt_succ_self _) style (.cons like.identity around) like'
      have recurs : within.contains v.identity = within'.contains w.identity :=
        contains_eq h.faults around like.identity
      have typed := h.typeName like
      cases like with
      | @plain v plain =>
        cases v with
        | position p =>
          simp only [Store.render, recurs,
            (h.rest.position p).namedTexts_eq (inner .quoted)]
        | node n =>
          rcases depth with _ | _ | below
          · rfl
          · rfl
          · have field {v' w' : Value} (like' : v'.Like ρ w') :
                s.render below (.node n :: within) .quoted v' =
                  t.render below (.node n :: within') .quoted w' :=
              ih below (by omega) .quoted (.cons (.same (by simp)) around) like'
            simp only [Store.render, recurs, typed]
            split
            · rfl
            · exact congrArg _ ((h.rest.node n).form.fields.namedTexts_eq field)
        | callable f =>
          have cell := h.rest.callable f
          simp only [Store.render, h.length? cell.calls, h.hostTypeName cell.calls,
            part .plain cell.name]
        | object o =>
          have self : Value.Like ρ (.object o) (.object o) := .plain rfl
          have label := Value.Like.getD (h.attribute? self "label")
          simp only [Store.render, part .plain label]
        | token r =>
          obtain ⟨text, kind, value, -⟩ := h.rest.token r
          simp only [Store.render, text, part .quoted kind, part .quoted value]
        | tree r =>
          obtain ⟨label, children, -, -⟩ := h.rest.tree r
          simp only [Store.render, part .quoted label, part .quoted children]
        | list | tuple | dict | fault | outcome => cases plain
        | extent | routine | curio => simp only [Store.render, typed]
        | _ => rfl
      | fault paired => exact h.render_fault part style paired
      | outcome counts =>
        rcases depth with _ | below
        · rfl
        · have deeper {v w : Value} (style : Style) (like : v.Like ρ w) :
              s.render below within style v = t.render below within' style w :=
            ih below (by omega) style around like
          exact h.render_outcome deeper style counts
      | list stamp all =>
        have items := List.rel_append all (h.addedTo stamp)
        simp only [Store.render, recurs, Store.listItems?, Option.getD_some,
          Value.AllLike.mapM_eq items (inner .quoted)]
      | tuple stamp all =>
        simp only [Store.render, recurs, Value.AllLike.mapM_eq all (inner .quoted)]
      | dict stamp keys values =>
        simp only [Store.render, recurs, mapM_entries_eq keys values (inner .quoted)]

theorem plainText (like : v.Like ρ w) : s.plainText v = t.plainText w := by
  rw [Store.plainText, Store.plainText, ← h.rest.interpreter]
  exact h.render _ .plain .nil like

/-- Like values have the same message after the name of their type. -/
theorem namedText (like : v.Like ρ w) : s.namedText v = t.namedText w := by
  rw [Store.namedText, Store.namedText, h.plainText like, h.typeName like]

end Store.Like

end Fallback
