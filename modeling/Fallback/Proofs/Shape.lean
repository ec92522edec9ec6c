import Fallback.Thing
import Fallback.Proofs.Comparison
import Fallback.Proofs.Number

/-!
Shapes: what equality looks at in a value.

`Store.shape` tells the values apart that equality treats differently and keeps of each what it
compares: of a node its form and not its place, of a text its letters and not its stamp, of a number
its worth, of a thing of the host its identity. `Store.Realm` is a set of values that can be compared
by their shapes (`Realm.equal_succ`): with a value it has all its parts, there is no token and no
rule of a parse tree in it, and dictionaries, positions and faults are as the library makes them.
A value may well be a part of itself.
-/
namespace Fallback

/-- What equality looks at in a value. -/
inductive Shape
  | tuple (items : List Value)
  | list (items : List Value)
  | dict (entries : List (Value × Value))
  | position (marks : Attributes)
  | node (form : Form)
  | outcome (result : Result)
  | text (t : String)
  | number (worth : Option (Int ⊕ Binary64))
  | thing (identity : Identity)

namespace Store

/-- The shape of a value; a token or a rule counts as a thing of the host. -/
def shape (s : Store) : Value → Shape
  | .tuple items _ => .tuple items
  | .list items stamp => .list (items ++ s.addedTo stamp)
  | .dict entries _ => .dict entries
  | .position p => .position (s.position p)
  | .node n => .node (s.form n)
  | .outcome o => .outcome (s.outcome o).result
  | .str t _ => .text t
  | .bool b => .number (Value.bool b).worth?
  | .int n stamp => .number (Value.int n stamp).worth?
  | .float x stamp => .number (Value.float x stamp).worth?
  | .nan _ => .number none
  | v => .thing v.identity

/-- Equality of two shapes; `depth` is what is left for their parts. -/
def equalShapes (s : Store) (depth : Nat) : Shape → Shape → Compared
  | .tuple as, .tuple bs => relatedItems (sameOr (s.equal depth)) as bs
  | .list as, .list bs =>
    if as.length = bs.length then relatedItems (sameOr (s.equal depth)) as bs else .ok false
  | .dict as, .dict bs =>
    if as.length = bs.length then relatedEntries (sameOr (s.equal depth)) as bs else .ok false
  | .position as, .position bs =>
    if as.length = bs.length then relatedAttributes (sameOr (s.equal depth)) as bs else .ok false
  | .node f, .node g =>
    match depth with
    | below + 2 =>
      if f.kind = g.kind then relatedItems (sameOr (s.equal below)) f.values g.values
      else .ok false
    | _ => .error .tooDeep
  | .outcome r, .outcome q =>
    match depth, r, q with
    | below + 1, .success x, .success y => sameOr (s.equal below) x y
    | below + 1, .raised x, .raised y => s.equivalent below x y
    | 0, _, _ => .error .tooDeep
    | _, _, _ => .ok false
  | .text t, .text u => .ok (t = u)
  | .number x, .number y => .ok (x.isSome && x = y)
  | .thing x, .thing y => .ok (x = y)
  | _, _ => .ok false

/-- The parts of a value that equality or equivalence may come to. -/
def parts (s : Store) : Value → List Value
  | .tuple items _ => items
  | .list items stamp => items ++ s.addedTo stamp
  | .dict entries _ => entries.flatMap fun entry => [entry.1, entry.2]
  | .position p => (s.position p).map (·.2)
  | .node n => (s.form n).values
  | .outcome o =>
    match (s.outcome o).result with
    | .success v | .raised v => [v]
  | .fault e => (s.fault e).args :: (s.fault e).cause?.toList
  | _ => []

/-- The values that can be compared by their shapes. -/
structure Realm (s : Store) (D : Value → Prop) : Prop where
  parts {v} (inside : D v) : ∀ p ∈ s.parts v, D p
  noToken (t) : ¬D (.token t)
  noTree (t) : ¬D (.tree t)
  /-- A stamp is given out once. -/
  stamp {v w n} (inside : D v) (inside' : D w) (first : v.identity = .stamped n)
    (second : w.identity = .stamped n) : v = w
  /-- The keys of a dictionary can be keys and are not the same key. -/
  keys {entries n} (inside : D (.dict entries n)) :
    (∀ entry ∈ entries, s.checkKey entry.1 = .ok ()) ∧
      entries.Pairwise fun a b => s.areSameKey a.1 b.1 ≠ .ok true
  /-- A position has every attribute once. -/
  marks {p} (inside : D (.position p)) : ((s.position p).map (·.1)).Nodup
  /-- The arguments of a fault are a tuple. -/
  args {e} (inside : D (.fault e)) : ∃ items n, (s.fault e).args = .tuple items n
  /-- A failed call has a cause, which is null or a fault. -/
  cause {e} (inside : D (.fault e)) (failed : (s.fault e).kind = .failedCall) :
    (s.fault e).cause? = some .null ∨ ∃ c, (s.fault e).cause? = some (.fault c)
  /-- What an outcome raises is a fault. -/
  raised {o x} (inside : D (.outcome o)) (raised : (s.outcome o).result = .raised x) :
    ∃ e, x = .fault e

variable {s : Store} {v w : Value}

/-- The shape of a thing that needs no stamp to be told apart. -/
def shapeOfIdentity (s : Store) : Identity → Shape
  | .bool b => .number (Value.bool b).worth?
  | .small n => .number (Value.int n noStamp).worth?
  | .emptyText => .text ""
  | .letter c => .text (String.singleton c)
  | .emptyTuple => .tuple []
  | .node n => .node (s.form n)
  | .outcome o => .outcome (s.outcome o).result
  | .position p => .position (s.position p)
  | i => .thing i

theorem shape_str {t : String} {n : Nat} (unstamped : ∀ m, Value.textIdentity t n ≠ .stamped m) :
    s.shape (.str t n) = s.shapeOfIdentity (Value.textIdentity t n) := by
  rw [shape]
  revert unstamped
  unfold Value.textIdentity
  split
  · next empty =>
    rw [String.toList_eq_nil_iff.mp empty]
    exact fun _ => rfl
  · next c single =>
    rw [String.toList_inj.mp (single.trans (String.toList_singleton c).symm)]
    split
    · exact fun _ => rfl
    · exact fun unstamped => absurd rfl (unstamped n)
  · exact fun unstamped => absurd rfl (unstamped n)

theorem shape_eq_shapeOfIdentity (unstamped : ∀ n, v.identity ≠ .stamped n) :
    s.shape v = s.shapeOfIdentity v.identity := by
  cases v with
  | str t n => exact shape_str unstamped
  | int n stamp =>
    simp only [Value.identity] at unstamped ⊢
    split at unstamped
    · next small =>
      rw [if_pos small]
      rfl
    · exact absurd rfl (unstamped stamp)
  | tuple items stamp =>
    simp only [Value.identity] at unstamped ⊢
    split at unstamped
    · next empty =>
      rw [if_pos empty, List.isEmpty_iff.mp empty]
      rfl
    · exact absurd rfl (unstamped stamp)
  | float _ n | nan n | list _ n | dict _ n | curio _ n => exact absurd rfl (unstamped n)
  | _ => rfl

theorem worth_absorbs {v w : Value} (known : v.worth?.isSome = true)
    (same : v.worth? = w.worth?) (b : Bool) :
    (v.worth?.isSome && decide (v.worth? = w.worth?) || b) =
      (v.worth?.isSome && decide (v.worth? = w.worth?)) := by
  rw [known, decide_eq_true same]
  rfl

/-- The fault behind a failed call, or null. -/
def causeOf (s : Store) (e : FaultRef) : Value :=
  (s.fault e).cause?.getD .null

theorem typeName_fault_iff {e f : FaultRef} :
    s.typeName (.fault e) = s.typeName (.fault f) ↔ (s.fault e).kind = (s.fault f).kind := by
  simp only [typeName]
  generalize (s.fault e).kind = a
  generalize (s.fault f).kind = b
  cases a <;> cases b <;> decide

namespace Realm

variable {D : Value → Prop} (h : s.Realm D)
include h

/-- What is the same thing has the same shape. -/
theorem shape_eq_of_isSame (hv : D v) (hw : D w) (same : v.isSame w = true) :
    s.shape v = s.shape w := by
  have identity : v.identity = w.identity := of_decide_eq_true same
  by_cases stamped : ∃ n, v.identity = .stamped n
  · obtain ⟨n, first⟩ := stamped
    rw [h.stamp hv hw first (identity ▸ first)]
  · rw [not_exists] at stamped
    rw [shape_eq_shapeOfIdentity stamped, shape_eq_shapeOfIdentity (identity ▸ stamped), identity]

/-- Values are equal when their shapes are. -/
theorem equal_succ (depth : Nat) (hv : D v) (hw : D w) :
    s.equal (depth + 1) v w = s.equalShapes depth (s.shape v) (s.shape w) := by
  unfold equal
  split
  · exact absurd hv (h.noTree _)
  · exact absurd hw (h.noTree _)
  · rfl
  · rfl
  · rfl
  · rfl
  · rfl
  · exact absurd hv (h.noToken _)
  · next tuples dicts positions nodes outcomes _ =>
    have numbers : equalNumbers v w = (v.worth?.isSome && decide (v.worth? = w.worth?)) := by
      rw [Bool.eq_iff_iff, equalNumbers_iff]
      simp
    rw [numbers]
    -- what is compared by its identity has its identity for its shape
    cases same : v.isSame w with
    | false =>
      rw [Bool.false_and, Bool.or_false]
      cases v <;> cases w <;>
        first
        | rfl
        | exact congrArg Except.ok same.symm
        | exact (tuples _ _ _ _ rfl rfl).elim
        | exact (dicts _ _ _ _ rfl rfl).elim
        | exact (positions _ _ rfl rfl).elim
        | exact (nodes _ _ rfl rfl).elim
        | exact (outcomes _ _ rfl rfl).elim
        | exact absurd hv (h.noToken _)
        | exact absurd hw (h.noToken _)
    | true =>
      have together := h.shape_eq_of_isSame hv hw same
      cases v <;> cases w <;>
        first
        | rfl
        | (cases together; done)
        | exact congrArg Except.ok same.symm
        | exact congrArg Except.ok (worth_absorbs rfl (Shape.number.inj together) _)
        | exact (tuples _ _ _ _ rfl rfl).elim
        | exact (dicts _ _ _ _ rfl rfl).elim
        | exact (positions _ _ rfl rfl).elim
        | exact (nodes _ _ rfl rfl).elim
        | exact (outcomes _ _ rfl rfl).elim
        | exact absurd hv (h.noToken _)

theorem exists_cause {e : FaultRef} (inside : D (.fault e))
    (failed : (s.fault e).kind = .failedCall) : ∃ c, (s.fault e).cause? = some c := by
  obtain cause | ⟨c, cause⟩ := h.cause inside failed
  · exact ⟨_, cause⟩
  · exact ⟨_, cause⟩

/-- Faults that are not the same are equivalent when they are of the same kind, their arguments are
equal and, for failed calls, their causes are equivalent. -/
theorem equivalent_succ (depth : Nat) {e f : FaultRef} (he : D (.fault e)) (hf : D (.fault f)) :
    s.equivalent (depth + 1) (.fault e) (.fault f) =
      if e = f then .ok true
      else if (s.fault e).kind = (s.fault f).kind then
        bothHold (s.equal depth (s.fault e).args (s.fault f).args) fun _ =>
          if (s.fault e).kind = .failedCall then
            s.equivalent depth (s.causeOf e) (s.causeOf f)
          else .ok true
      else .ok false := by
  have held (x : FaultRef) : s.attribute? (.fault x) argsName = some (s.fault x).args := rfl
  obtain ⟨as, m, first⟩ := h.args he
  obtain ⟨bs, n, second⟩ := h.args hf
  conv_lhs => unfold equivalent
  simp only [held, first, second, Value.isNull, Bool.or_self, Bool.false_eq_true, if_false]
  by_cases one : e = f
  · simp [one, Value.isSame_refl]
  · have apart : (Value.fault e).isSame (.fault f) = false := by
      simpa [Value.isSame, Value.identity] using one
    rw [apart, if_neg one, if_neg Bool.false_ne_true]
    by_cases alike : (s.fault e).kind = (s.fault f).kind
    · rw [if_neg (not_not_intro (typeName_fault_iff.mpr alike)), if_pos alike]
      simp only [bothHold, bind, Except.bind]
      cases s.equal depth (.tuple as m) (.tuple bs n) with
      | error _ => rfl
      | ok agree =>
        refine ite_congr rfl (fun _ => ?_) fun _ => rfl
        by_cases failed : (s.fault e).kind = .failedCall
        · obtain ⟨c, cause⟩ := h.exists_cause he failed
          obtain ⟨d, cause'⟩ := h.exists_cause hf (alike ▸ failed)
          simp only [failed, cause, cause', causeOf, Option.getD_some, if_true]
        · rw [if_neg failed]
          split
          · next kind _ _ => exact absurd kind failed
          · rfl
    · rw [if_pos fun same => alike (typeName_fault_iff.mp same), if_neg alike]

end Realm

end Store

end Fallback
