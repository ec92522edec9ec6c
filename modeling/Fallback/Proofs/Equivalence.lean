import Fallback.Attempt
import Fallback.Proofs.Alike

/-!
Equality of outcomes and equivalence of faults are equivalence relations.

Main statement: `Store.Realm.comparisons`. On a realm, that is on values without tokens and rules
whose parts are again such values, the equivalence of faults and the equality of outcomes are
reflexive, symmetric and transitive; a success and a raised outcome differ; and a fault is equivalent
to its copy wherever the two are placed later on. Symmetry and transitivity hold of positive answers:
which of two different parts is found first depends on the side from which a dictionary is looked
through, and so does whether the depth suffices for it. All kinds of values contain each other, so
the two laws are proved together for both comparisons, by one induction on the depth
(`Realm.lawful`).
-/
namespace Fallback

/-! ## Dictionaries -/

/-- A relation on keys whose answers depend only on what the keys are related to. -/
structure KeyRelation (K : Value → Prop) (r : Value → Value → Compared) : Prop where
  comm {a b} (ha : K a) (hb : K b) : r a b = r b a
  congr {a b c} (ha : K a) (hb : K b) (hc : K c) (related : r a b = .ok true) : r a c = r b c

namespace KeyRelation

variable {K : Value → Prop} {r : Value → Value → Compared} (h : KeyRelation K r)
  {as bs : List (Value × Value)}
include h

/-- Entries at different places of a dictionary have unrelated keys. -/
theorem eq_of_related (keys : ∀ entry ∈ as, K entry.1)
    (distinct : as.Pairwise fun a b => r a.1 b.1 ≠ .ok true) {i j : Fin as.length}
    (related : r (as.get i).1 (as.get j).1 = .ok true) : i = j := by
  have apart := List.pairwise_iff_get.mp distinct
  have ha := keys (as.get i) (List.get_mem _ _)
  have hb := keys (as.get j) (List.get_mem _ _)
  rcases Nat.lt_trichotomy i j with less | same | more
  · exact absurd related (apart i j less)
  · exact Fin.ext same
  · exact absurd ((h.comm hb ha).trans related) (apart j i more)

/-- If every entry of a dictionary is found in another one of the same length, then every entry of
the other is found in the first. That the answers before the right entry are known is due to the
look through the other one: of two entries there, one was passed in search of the other. -/
theorem findsAt_flip (keys : ∀ entry ∈ as, K entry.1) (keys' : ∀ entry ∈ bs, K entry.1)
    (distinct : as.Pairwise fun a b => r a.1 b.1 ≠ .ok true) (length : as.length = bs.length)
    {f : Fin as.length → Fin bs.length} (finds : ∀ j, FindsAt r (as.get j).1 bs (f j)) :
    ∀ i, ∃ j, f j = i ∧ FindsAt r (bs.get i).1 as j := by
  have key (j : Fin as.length) : K (as.get j).1 := keys _ (List.get_mem _ _)
  have key' (i : Fin bs.length) : K (bs.get i).1 := keys' _ (List.get_mem _ _)
  have injective : Function.Injective f := fun j k same => by
    have first := (finds j).1
    have second := (finds k).1
    rw [← same] at second
    refine h.eq_of_related keys distinct ?_
    rw [h.congr (key j) (key' (f j)) (key k) first, h.comm (key' (f j)) (key k), second]
  have surjective : Function.Surjective f :=
    ((Fintype.bijective_iff_injective_and_card f).mpr ⟨injective, by simp [length]⟩).2
  intro i
  obtain ⟨j, rfl⟩ := surjective i
  refine ⟨j, rfl, ?_, fun k less => ?_⟩
  · rw [h.comm (key' (f j)) (key j), (finds j).1]
  · rcases Nat.lt_trichotomy (f k) (f j) with before | same | after
    · -- the search for the one passed the other
      have passed := (finds j).2 (f k) before
      rw [← h.congr (key j) (key' (f j)) (key k) (finds j).1, h.comm (key j) (key k),
        h.congr (key k) (key' (f k)) (key j) (finds k).1, h.comm (key' (f k)) (key j), passed]
    · exact absurd (injective (Fin.ext same)) (Fin.ne_of_lt less)
    · rw [h.comm (key' (f j)) (key k), (finds k).2 (f j) after]

/-- What is found by a key is found by a related key. -/
theorem findsAt_congr {a b : Value} (ha : K a) (hb : K b) (keys : ∀ entry ∈ as, K entry.1)
    (related : r a b = .ok true) {i : Fin as.length} (finds : FindsAt r b as i) :
    FindsAt r a as i := by
  have key (j : Fin as.length) : K (as.get j).1 := keys _ (List.get_mem _ _)
  refine ⟨?_, fun j less => ?_⟩
  · rw [h.congr ha hb (key i) related, finds.1]
  · rw [h.congr ha hb (key j) related, finds.2 j less]

end KeyRelation

/-! ## Positions -/

namespace Environment

/-- A binding is found by its name if every name is bound once. -/
theorem get?_of_mem {env : Environment} (nodup : (env.map (·.1)).Nodup) {b : String × Value}
    (inside : b ∈ env) : env.get? b.1 = some b.2 := by
  induction env with
  | nil => cases inside
  | cons c more ih =>
    obtain ⟨fresh, nodup⟩ := List.nodup_cons.mp nodup
    rcases List.mem_cons.mp inside with rfl | inside
    · simp [get?]
    · have other : c.1 ≠ b.1 := by
        intro same
        simp only [same] at fresh
        exact fresh (List.mem_map_of_mem (f := (·.1)) inside)
      rw [← ih nodup inside]
      simp [get?, other]

theorem mem_of_get? {env : Environment} {name : String} {v : Value}
    (h : env.get? name = some v) : (name, v) ∈ env := by
  obtain ⟨b, found, rfl⟩ := Option.map_eq_some_iff.mp h
  have named := List.find?_some found
  simp only [decide_eq_true_eq] at named
  exact named ▸ List.mem_of_find?_eq_some found

/-- If every binding is found among as many others, then every other one is found among the
first. -/
theorem get?_flip {R : Value → Value → Prop} {as bs : Environment}
    (nodup : (as.map (·.1)).Nodup) (nodup' : (bs.map (·.1)).Nodup)
    (length : as.length = bs.length) (h : ∀ a ∈ as, ∃ v, bs.get? a.1 = some v ∧ R a.2 v) :
    ∀ b ∈ bs, ∃ v, as.get? b.1 = some v ∧ R v b.2 := by
  have subset : as.map (·.1) ⊆ bs.map (·.1) := by
    intro name inside
    obtain ⟨a, ha, rfl⟩ := List.mem_map.mp inside
    obtain ⟨v, found, -⟩ := h a ha
    exact List.mem_map_of_mem (f := (·.1)) (mem_of_get? found)
  have perm : (as.map (·.1)).Perm (bs.map (·.1)) :=
    (List.subperm_of_subset nodup subset).perm_of_length_le (by simp [length])
  intro b hb
  obtain ⟨a, ha, same⟩ := List.mem_map.mp (perm.mem_iff.mpr (List.mem_map_of_mem (f := (·.1)) hb))
  obtain ⟨v, found, related⟩ := h a ha
  obtain rfl : b.2 = v := by
    rw [same, get?_of_mem nodup' hb] at found
    exact Option.some.inj found
  exact ⟨a.2, same ▸ get?_of_mem nodup ha, related⟩

end Environment

/-! ## Symmetry and transitivity -/

namespace Store

variable {s : Store} {D : Value → Prop} {n : Nat}

/-- Null or a fault. -/
def IsCause (v : Value) : Prop :=
  v = .null ∨ ∃ e, v = .fault e

/-- What the comparisons keep at a depth. -/
structure Lawful (s : Store) (D : Value → Prop) (n : Nat) : Prop where
  symm {v w} (hv : D v) (hw : D w) (equal : s.equal n v w = .ok true) : s.equal n w v = .ok true
  trans {u v w} (hu : D u) (hv : D v) (hw : D w) (first : s.equal n u v = .ok true)
    (second : s.equal n v w = .ok true) : s.equal n u w = .ok true
  equivalent_symm {v w} (hv : D v) (hw : D w) (cv : IsCause v) (cw : IsCause w)
    (equivalent : s.equivalent n v w = .ok true) : s.equivalent n w v = .ok true
  equivalent_trans {u v w} (hu : D u) (hv : D v) (hw : D w) (cu : IsCause u) (cv : IsCause v)
    (cw : IsCause w) (first : s.equivalent n u v = .ok true)
    (second : s.equivalent n v w = .ok true) : s.equivalent n u w = .ok true

/-- The parts of a shape are in the realm, and the shape is one that a value of the realm has. -/
inductive RealmShape (s : Store) (D : Value → Prop) : Shape → Prop
  | tuple {items} (parts : ∀ p ∈ items, D p) : RealmShape s D (.tuple items)
  | list {items} (parts : ∀ p ∈ items, D p) : RealmShape s D (.list items)
  | dict {entries} (keys : ∀ entry ∈ entries, s.IsKey D entry.1)
      (values : ∀ entry ∈ entries, D entry.2)
      (distinct : entries.Pairwise fun a b => s.areSameKey a.1 b.1 ≠ .ok true) :
      RealmShape s D (.dict entries)
  | position {marks : Attributes} (parts : ∀ a ∈ marks, D a.2)
      (nodup : (marks.map (·.1)).Nodup) : RealmShape s D (.position marks)
  | node {form : Form} (parts : ∀ p ∈ form.values, D p) : RealmShape s D (.node form)
  | success {v} (inside : D v) : RealmShape s D (.outcome (.success v))
  | raised {e} (inside : D (.fault e)) : RealmShape s D (.outcome (.raised (.fault e)))
  | text (t) : RealmShape s D (.text t)
  | number (x) : RealmShape s D (.number x)
  | thing (i) : RealmShape s D (.thing i)

variable {u v w : Value}

theorem Realm.realmShape (h : s.Realm D) (hv : D v) : s.RealmShape D (s.shape v) := by
  have parts := h.parts hv
  cases v with
  | tuple items _ => exact .tuple parts
  | list items _ => exact .list parts
  | dict entries _ =>
    have ⟨hashed, distinct⟩ := h.keys hv
    have part {entry p} (inside : entry ∈ entries) (hp : p ∈ [entry.1, entry.2]) : D p :=
      parts p (List.mem_flatMap.mpr ⟨entry, inside, hp⟩)
    exact .dict (fun entry inside => ⟨part inside (by simp), _, hashed entry inside⟩)
      (fun entry inside => part inside (by simp)) distinct
  | position p =>
    exact .position (fun a ha => parts a.2 (List.mem_map_of_mem (f := (·.2)) ha)) (h.marks hv)
  | node m => exact .node parts
  | outcome o =>
    rw [shape]
    simp only [Store.parts] at parts
    cases hr : (s.outcome o).result with
    | success x => exact .success (parts x (by simp [hr]))
    | raised x =>
      obtain ⟨e, rfl⟩ := h.raised hv hr
      exact .raised (parts _ (by simp [hr]))
  | str t _ => exact .text t
  | bool | int | float | nan => exact .number _
  | _ => exact .thing _

theorem Alike.symm (laws : s.Lawful D n) (hv : D v) (hw : D w) (h : s.Alike n v w) :
    s.Alike n w v := by
  obtain same | equal := alike_iff.mp h
  · exact alike_iff.mpr (.inl (Value.isSame_symm same))
  · exact alike_iff.mpr (.inr (laws.symm hv hw equal))

theorem Alike.trans (realm : s.Realm D) (laws : s.Lawful D n) (hu : D u) (hv : D v) (hw : D w)
    (h : s.Alike n u v) (k : s.Alike n v w) : s.Alike n u w := by
  obtain same | equal := alike_iff.mp h
  · obtain same' | equal' := alike_iff.mp k
    · exact alike_iff.mpr (.inl (Value.isSame_trans same same'))
    · exact alike_iff.mpr (.inr (by rwa [realm.equal_left_of_isSame hu hv hw same]))
  · obtain same' | equal' := alike_iff.mp k
    · exact alike_iff.mpr (.inr (by rwa [← realm.equal_right_of_isSame hu hv hw same']))
    · exact alike_iff.mpr (.inr (laws.trans hu hv hw equal equal'))

theorem forall₂_symm (laws : s.Lawful D n) {as bs : List Value} (ha : ∀ a ∈ as, D a)
    (hb : ∀ b ∈ bs, D b) (h : List.Forall₂ (s.Alike n) as bs) :
    List.Forall₂ (s.Alike n) bs as := by
  induction h with
  | nil => exact .nil
  | cons first _ ih =>
    rw [List.forall_mem_cons] at ha hb
    exact .cons (first.symm laws ha.1 hb.1) (ih ha.2 hb.2)

theorem forall₂_trans (realm : s.Realm D) (laws : s.Lawful D n) {as bs cs : List Value}
    (ha : ∀ a ∈ as, D a) (hb : ∀ b ∈ bs, D b) (hc : ∀ c ∈ cs, D c)
    (h : List.Forall₂ (s.Alike n) as bs) (k : List.Forall₂ (s.Alike n) bs cs) :
    List.Forall₂ (s.Alike n) as cs := by
  induction h generalizing cs with
  | nil =>
    cases k
    exact .nil
  | cons first _ ih =>
    cases k with
    | cons second rest =>
      rw [List.forall_mem_cons] at ha hb hc
      exact .cons (first.trans realm laws ha.1 hb.1 hc.1 second) (ih ha.2 hb.2 hc.2 rest)

/-- The comparison of keys in a realm, as a dictionary asks for it. -/
theorem Realm.keyRelation (h : s.Realm D) (n : Nat) :
    KeyRelation (s.IsKey D) (asKeys (sameOr (s.equal n))) := by
  have laws := h.keyLaws n
  have noTree {v : Value} (hv : s.IsKey D v) : v.isTree = false := by
    cases v with
    | tree t => exact absurd hv.1 (h.noTree t)
    | _ => rfl
  have plain {v w : Value} (hv : s.IsKey D v) (hw : s.IsKey D w) :
      asKeys (sameOr (s.equal n)) v w = sameOr (s.equal n) v w := by
    rw [asKeys, if_pos ((noTree hv).trans (noTree hw).symm)]
  refine ⟨fun ha hb => ?_, fun ha hb hc related => ?_⟩
  · rw [plain ha hb, plain hb ha, laws.sameOr_comm ha hb]
  · rw [plain ha hb] at related
    rw [plain ha hc, plain hb hc, laws.sameOr_congr h ha hb hc related]

/-- Keys that are not the same key are not found to be at any depth within the limit. -/
theorem Realm.distinct (le : n ≤ s.interpreter.valueDepth) {entries : List (Value × Value)}
    (distinct : entries.Pairwise fun a b => s.areSameKey a.1 b.1 ≠ .ok true) :
    entries.Pairwise fun a b => asKeys (sameOr (s.equal n)) a.1 b.1 ≠ .ok true := by
  refine distinct.imp fun {a b} apart related => apart ?_
  revert related
  unfold areSameKey asKeys
  split
  · intro related
    exact alike_iff.mpr ((alike_iff.mp related).imp id (equal_mono le))
  · exact id

theorem AlikeShapes.symm (realm : s.Realm D) (le : n ≤ s.interpreter.valueDepth)
    (below : ∀ k ≤ n, s.Lawful D k) {X Y : Shape} (hX : s.RealmShape D X)
    (hY : s.RealmShape D Y) (h : s.AlikeShapes n X Y) : s.AlikeShapes n Y X := by
  have laws := below n (Nat.le_refl n)
  cases h with
  | text t => exact .text t
  | number x => exact .number x
  | thing i => exact .thing i
  | tuple items =>
    have .tuple parts := hX
    have .tuple parts' := hY
    exact .tuple (forall₂_symm laws parts parts' items)
  | list items =>
    have .list parts := hX
    have .list parts' := hY
    exact .list (forall₂_symm laws parts parts' items)
  | @dict _ as bs length entries =>
    have .dict keys values distinct := hX
    have .dict keys' values' _ := hY
    choose f found using fun j : Fin as.length => entries (as.get j) (List.get_mem _ _)
    refine .dict length.symm fun entry inside => ?_
    obtain ⟨i, rfl⟩ := List.mem_iff_get.mp inside
    obtain ⟨j, rfl, finds⟩ := (realm.keyRelation n).findsAt_flip keys keys'
      (Realm.distinct le distinct) length (fun j => (found j).1) i
    exact ⟨j, finds, (found j).2.symm laws (values _ (List.get_mem _ _))
      (values' _ (List.get_mem _ _))⟩
  | position length marks =>
    have .position parts nodup := hX
    have .position parts' nodup' := hY
    refine .position length.symm fun b hb => ?_
    obtain ⟨v, found, alike⟩ := Environment.get?_flip nodup nodup' length marks b hb
    exact ⟨v, found, alike.symm laws (parts _ (Environment.mem_of_get? found)) (parts' b hb)⟩
  | @node fields f g kind items =>
    have .node parts := hX
    have .node parts' := hY
    exact .node kind.symm (forall₂_symm (below fields (by omega)) parts parts' items)
  | @success result x y value =>
    have .success inside := hX
    have .success inside' := hY
    exact .success (value.symm (below result (by omega)) inside inside')
  | @raised result x y fault =>
    have .raised inside := hX
    have .raised inside' := hY
    exact .raised ((below result (by omega)).equivalent_symm inside inside' (.inr ⟨_, rfl⟩)
      (.inr ⟨_, rfl⟩) fault)

theorem AlikeShapes.trans (realm : s.Realm D) (below : ∀ k ≤ n, s.Lawful D k)
    {X Y Z : Shape} (hX : s.RealmShape D X) (hY : s.RealmShape D Y) (hZ : s.RealmShape D Z)
    (h : s.AlikeShapes n X Y) (k : s.AlikeShapes n Y Z) : s.AlikeShapes n X Z := by
  have laws := below n (Nat.le_refl n)
  cases h with
  | text t => exact k
  | number x => exact k
  | thing i => exact k
  | tuple items =>
    have .tuple parts := hX
    have .tuple parts' := hY
    cases k with
    | tuple items' =>
      have .tuple parts'' := hZ
      exact .tuple (forall₂_trans realm laws parts parts' parts'' items items')
  | list items =>
    have .list parts := hX
    have .list parts' := hY
    cases k with
    | list items' =>
      have .list parts'' := hZ
      exact .list (forall₂_trans realm laws parts parts' parts'' items items')
  | @dict _ as bs length entries =>
    have .dict keys values _ := hX
    have .dict keys' values' _ := hY
    cases k with
    | @dict _ _ cs length' entries' =>
      have .dict keys'' values'' _ := hZ
      refine .dict (length.trans length') fun entry inside => ?_
      obtain ⟨i, finds, alike⟩ := entries entry inside
      have there : (bs.get i) ∈ bs := List.get_mem _ _
      obtain ⟨j, finds', alike'⟩ := entries' (bs.get i) there
      exact ⟨j, (realm.keyRelation n).findsAt_congr (keys entry inside) (keys' _ there) keys''
          finds.1 finds',
        alike.trans realm laws (values entry inside) (values' _ there)
          (values'' _ (List.get_mem _ _)) alike'⟩
  | position length marks =>
    have .position parts _ := hX
    have .position parts' _ := hY
    cases k with
    | position length' marks' =>
      have .position parts'' _ := hZ
      refine .position (length.trans length') fun a ha => ?_
      obtain ⟨v, found, alike⟩ := marks a ha
      have there := Environment.mem_of_get? found
      obtain ⟨x, found', alike'⟩ := marks' _ there
      exact ⟨x, found', alike.trans realm laws (parts a ha) (parts' _ there)
        (parts'' _ (Environment.mem_of_get? found')) alike'⟩
  | @node fields f g kind items =>
    have .node parts := hX
    have .node parts' := hY
    cases k with
    | node kind' items' =>
      have .node parts'' := hZ
      exact .node (kind.trans kind')
        (forall₂_trans realm (below fields (by omega)) parts parts' parts'' items items')
  | @success result x y value =>
    have .success inside := hX
    have .success inside' := hY
    cases k with
    | success value' =>
      have .success inside'' := hZ
      exact .success (value.trans realm (below result (by omega)) inside inside' inside'' value')
  | @raised result x y fault =>
    have .raised inside := hX
    have .raised inside' := hY
    cases k with
    | raised fault' =>
      have .raised inside'' := hZ
      exact .raised ((below result (by omega)).equivalent_trans inside inside' inside''
        (.inr ⟨_, rfl⟩) (.inr ⟨_, rfl⟩) (.inr ⟨_, rfl⟩) fault fault')

/-! ### The induction on the depth -/

/-- Null is equivalent to itself alone. -/
theorem equivalent_null_iff {v : Value} (cv : IsCause v) :
    (s.equivalent (n + 1) .null v = .ok true ↔ v = .null) ∧
      (s.equivalent (n + 1) v .null = .ok true ↔ v = .null) := by
  unfold equivalent
  obtain rfl | ⟨e, rfl⟩ := cv
  · simp [Value.isSame, Value.identity]
  · simp [Value.isSame, Value.identity, Value.isNull]

/-- Faults found equivalent are the same, or of the same kind with equal arguments and, for failed
calls, equivalent causes. -/
theorem Realm.equivalent_iff (h : s.Realm D) {e f : FaultRef} (he : D (.fault e))
    (hf : D (.fault f)) :
    s.equivalent (n + 1) (.fault e) (.fault f) = .ok true ↔
      e = f ∨ (s.fault e).kind = (s.fault f).kind ∧
        s.equal n (s.fault e).args (s.fault f).args = .ok true ∧
        ((s.fault e).kind = .failedCall →
          s.equivalent n (s.causeOf e) (s.causeOf f) = .ok true) := by
  rw [h.equivalent_succ n he hf]
  by_cases same : e = f
  · simp [same]
  · by_cases kind : (s.fault e).kind = (s.fault f).kind
    · rw [if_neg same, if_pos kind, bothHold_iff, or_iff_right same, and_iff_right kind]
      by_cases failed : (s.fault e).kind = .failedCall
      · simp only [failed, if_true, true_imp_iff]
      · simp only [failed, if_false, false_imp_iff]
    · simp [same, kind]

theorem Realm.args_inside (h : s.Realm D) {e : FaultRef} (he : D (.fault e)) :
    D (s.fault e).args :=
  h.parts he _ List.mem_cons_self

theorem Realm.causeOf_inside (h : s.Realm D) {e : FaultRef} (he : D (.fault e))
    (failed : (s.fault e).kind = .failedCall) : D (s.causeOf e) ∧ IsCause (s.causeOf e) := by
  have inside {c : Value} (cause : (s.fault e).cause? = some c) : D c :=
    h.parts he c (List.mem_cons_of_mem _ (by simp [cause]))
  obtain cause | ⟨c, cause⟩ := h.cause he failed
  · simpa [causeOf, cause, IsCause] using inside cause
  · simpa [causeOf, cause, IsCause] using inside cause

theorem Realm.equivalent_symm (h : s.Realm D) (laws : s.Lawful D n) (hv : D v) (hw : D w)
    (cv : IsCause v) (cw : IsCause w) (equivalent : s.equivalent (n + 1) v w = .ok true) :
    s.equivalent (n + 1) w v = .ok true := by
  obtain rfl | ⟨e, rfl⟩ := cv
  · obtain rfl := (equivalent_null_iff cw).1.mp equivalent
    exact equivalent
  obtain rfl | ⟨f, rfl⟩ := cw
  · cases (equivalent_null_iff (.inr ⟨e, rfl⟩)).2.mp equivalent
  rw [h.equivalent_iff hv hw] at equivalent
  rw [h.equivalent_iff hw hv]
  obtain same | ⟨kind, args, causes⟩ := equivalent
  · exact .inl same.symm
  refine .inr ⟨kind.symm, laws.symm (h.args_inside hv) (h.args_inside hw) args, fun failed => ?_⟩
  have ⟨inside, cause⟩ := h.causeOf_inside hv (kind.trans failed)
  have ⟨inside', cause'⟩ := h.causeOf_inside hw failed
  exact laws.equivalent_symm inside inside' cause cause' (causes (kind.trans failed))

theorem Realm.equivalent_trans (h : s.Realm D) (laws : s.Lawful D n) (hu : D u) (hv : D v)
    (hw : D w) (cu : IsCause u) (cv : IsCause v) (cw : IsCause w)
    (first : s.equivalent (n + 1) u v = .ok true) (second : s.equivalent (n + 1) v w = .ok true) :
    s.equivalent (n + 1) u w = .ok true := by
  obtain rfl | ⟨e, rfl⟩ := cu
  · obtain rfl := (equivalent_null_iff cv).1.mp first
    exact second
  obtain rfl | ⟨f, rfl⟩ := cv
  · cases (equivalent_null_iff (.inr ⟨e, rfl⟩)).2.mp first
  obtain rfl | ⟨g, rfl⟩ := cw
  · cases (equivalent_null_iff (.inr ⟨f, rfl⟩)).2.mp second
  rw [h.equivalent_iff hu hv] at first
  rw [h.equivalent_iff hv hw] at second
  rw [h.equivalent_iff hu hw]
  obtain rfl | ⟨kind, args, causes⟩ := first
  · exact second
  obtain rfl | ⟨kind', args', causes'⟩ := second
  · exact .inr ⟨kind, args, causes⟩
  refine .inr ⟨kind.trans kind', laws.trans (h.args_inside hu) (h.args_inside hv)
    (h.args_inside hw) args args', fun failed => ?_⟩
  have failed' := kind ▸ failed
  have ⟨inside, cause⟩ := h.causeOf_inside hu failed
  have ⟨inside', cause'⟩ := h.causeOf_inside hv failed'
  have ⟨inside'', cause''⟩ := h.causeOf_inside hw (kind' ▸ failed')
  exact laws.equivalent_trans inside inside' inside'' cause cause' cause'' (causes failed)
    (causes' failed')

theorem Realm.lawful_succ (h : s.Realm D) (le : n + 1 ≤ s.interpreter.valueDepth)
    (below : ∀ k ≤ n, s.Lawful D k) : s.Lawful D (n + 1) where
  symm {v w} hv hw equal := by
    rw [h.equal_succ n hv hw, equalShapes_iff] at equal
    rw [h.equal_succ n hw hv, equalShapes_iff]
    exact equal.symm h (Nat.le_of_succ_le le) below (h.realmShape hv) (h.realmShape hw)
  trans {u v w} hu hv hw first second := by
    rw [h.equal_succ n hu hv, equalShapes_iff] at first
    rw [h.equal_succ n hv hw, equalShapes_iff] at second
    rw [h.equal_succ n hu hw, equalShapes_iff]
    exact first.trans h below (h.realmShape hu) (h.realmShape hv) (h.realmShape hw) second
  equivalent_symm := h.equivalent_symm (below n (Nat.le_refl n))
  equivalent_trans := h.equivalent_trans (below n (Nat.le_refl n))

theorem Realm.lawful (h : s.Realm D) (le : n ≤ s.interpreter.valueDepth) : s.Lawful D n := by
  induction n using Nat.strongRecOn with
  | ind n ih =>
    cases n with
    | zero =>
      refine ⟨fun _ _ equal => ?_, fun _ _ _ first _ => ?_, fun _ _ _ _ equivalent => ?_,
        fun _ _ _ _ _ _ first _ => ?_⟩
      · rw [Store.equal] at equal
        cases equal
      · rw [Store.equal] at first
        cases first
      · rw [Store.equivalent] at equivalent
        cases equivalent
      · rw [Store.equivalent] at first
        cases first
    | succ n =>
      exact h.lawful_succ le fun k below =>
        ih k (Nat.lt_succ_of_le below) (Nat.le_trans below (Nat.le_of_succ_le le))

/-! ## The two comparisons -/

/-- An outcome is equal to itself, whatever its value is. -/
theorem areEqual_outcome_self (s : Store) (o : OutcomeRef) :
    s.areEqual (.outcome o) (.outcome o) = .ok true := by
  rw [areEqual, s.interpreter.valueDepth_eq]
  unfold equal
  dsimp only
  cases (s.outcome o).result with
  | success v => exact sameOr_self _ v
  | raised e => exact s.equivalent_self _ e

/-- A success is not equal to a raised outcome. -/
theorem areEqual_success_raised {o p : OutcomeRef} {x y : Value}
    (success : (s.outcome o).result = .success x) (raised : (s.outcome p).result = .raised y) :
    s.areEqual (.outcome o) (.outcome p) = .ok false ∧
      s.areEqual (.outcome p) (.outcome o) = .ok false := by
  rw [areEqual, areEqual, s.interpreter.valueDepth_eq]
  unfold equal
  simp [success, raised]

/-- The fault is what it was but for its place. -/
def DiffersInPlace (t u : Store) (e : FaultRef) : Prop :=
  ∃ place, u.fault e = { t.fault e with place }

theorem DiffersInPlace.parts {t u : Store} {e : FaultRef} (h : DiffersInPlace t u e) :
    (u.fault e).kind = (t.fault e).kind ∧ (u.fault e).args = (t.fault e).args ∧
      (u.fault e).cause? = (t.fault e).cause? := by
  obtain ⟨place, same⟩ := h
  rw [same]
  exact ⟨rfl, rfl, rfl⟩

/-- A fault with a tuple of arguments is one that was made. -/
theorem lt_of_args {e : FaultRef} {items : List Value} {stamp : Nat}
    (args : (s.fault e).args = .tuple items stamp) : e.index < s.faults.size := by
  by_contra beyond
  rw [fault, Array.getElem?_eq_none (Nat.le_of_not_lt beyond)] at args
  cases args

theorem Realm.copy (h : s.Realm D) {e : FaultRef} (he : D (.fault e)) :
    ∃ d t, (Attempt.copyFault e).runOn s = (.ok d, t) ∧ d ≠ e ∧
      ∀ u : Store, DiffersInPlace t u e → DiffersInPlace t u d →
        u.areEquivalent (.fault e) (.fault d) = .ok true ∧
          u.areEquivalent (.fault d) (.fault e) = .ok true := by
  obtain ⟨items, stamp, args⟩ := h.args he
  have made := lt_of_args args
  refine ⟨(s.addFault (s.fault e)).1, (s.addFault (s.fault e)).2, rfl,
    fun same => Nat.ne_of_gt made (congrArg FaultRef.index same), fun u held copied => ?_⟩
  have ⟨kind, same, cause⟩ := held.parts
  have ⟨kind', same', cause'⟩ := copied.parts
  rw [fault_addFault_of_lt _ made] at kind same cause
  rw [fault_addFault_self] at kind' same' cause'
  exact ⟨areEquivalent_of_parts (kind.trans kind'.symm) (same.trans same'.symm)
      (cause.trans cause'.symm) (same'.trans args),
    areEquivalent_of_parts (kind'.trans kind.symm) (same'.trans same.symm)
      (cause'.trans cause.symm) (same.trans args)⟩

/-- On a realm the equivalence of faults and the equality of outcomes are equivalence relations, a
success is never equal to a raised outcome, and a fault is equivalent to its copy wherever either of
the two is placed. -/
theorem Realm.comparisons (h : s.Realm D) :
    Equivalence (fun e f : {e : FaultRef // D (.fault e)} =>
      s.areEquivalent (.fault e) (.fault f) = .ok true) ∧
    Equivalence (fun o p : {o : OutcomeRef // D (.outcome o)} =>
      s.areEqual (.outcome o) (.outcome p) = .ok true) ∧
    (∀ o p x y, (s.outcome o).result = .success x → (s.outcome p).result = .raised y →
      s.areEqual (.outcome o) (.outcome p) = .ok false ∧
        s.areEqual (.outcome p) (.outcome o) = .ok false) ∧
    ∀ e, D (.fault e) → ∃ d t, (Attempt.copyFault e).runOn s = (.ok d, t) ∧ d ≠ e ∧
      ∀ u : Store, DiffersInPlace t u e → DiffersInPlace t u d →
        u.areEquivalent (.fault e) (.fault d) = .ok true ∧
          u.areEquivalent (.fault d) (.fault e) = .ok true := by
  have laws := h.lawful (Nat.le_refl s.interpreter.valueDepth)
  refine ⟨⟨fun e => ?_, fun {e f} => ?_, fun {e f g} => ?_⟩,
    ⟨fun o => s.areEqual_outcome_self o, fun {o p} => ?_, fun {o p q} => ?_⟩,
    fun _ _ _ _ => areEqual_success_raised, fun e => h.copy⟩
  · exact s.areEquivalent_self (.fault e)
  · exact laws.equivalent_symm e.2 f.2 (.inr ⟨e, rfl⟩) (.inr ⟨f, rfl⟩)
  · exact laws.equivalent_trans e.2 f.2 g.2 (.inr ⟨e, rfl⟩) (.inr ⟨f, rfl⟩) (.inr ⟨g, rfl⟩)
  · exact laws.symm o.2 p.2
  · exact laws.trans o.2 p.2 q.2

/-! ### A sample -/

/-- Two failed calls with the same message, whose causes carry a number that is no number, and two
dictionaries with this number for a key and a tuple of it in their values, in different orders. -/
def sampleValues : List Value :=
  let nan := Value.nan 1
  let letter := Value.str "k" 2
  [nan, letter, .tuple [nan] 3, .tuple [nan] 4, .str "Boom: nan" 5, .str "Boom: nan" 6,
    .tuple [.str "Boom: nan" 5] 7, .tuple [.str "Boom: nan" 6] 8, .fault ⟨0⟩, .fault ⟨1⟩,
    .fault ⟨2⟩, .fault ⟨3⟩, .outcome ⟨0⟩, .outcome ⟨1⟩, .outcome ⟨2⟩, .outcome ⟨3⟩,
    .dict [(nan, .outcome ⟨0⟩), (letter, .tuple [nan] 3)] 9,
    .dict [(letter, .tuple [nan] 4), (nan, .outcome ⟨1⟩)] 10]

/-- The store of the sample. -/
def sampleStore : Store :=
  { Store.empty with
    faults := #[⟨.boom, .tuple [.nan 1] 3, .null, .null, []⟩,
      ⟨.boom, .tuple [.nan 1] 4, .null, .null, []⟩,
      ⟨.failedCall, .tuple [.str "Boom: nan" 5] 7, .fault ⟨0⟩, .null,
        [(Fault.causeName, .fault ⟨0⟩)]⟩,
      ⟨.failedCall, .tuple [.str "Boom: nan" 6] 8, .fault ⟨1⟩, .null,
        [(Fault.causeName, .fault ⟨1⟩)]⟩]
    outcomes := #[⟨.raised (.fault ⟨2⟩), []⟩, ⟨.raised (.fault ⟨3⟩), []⟩,
      ⟨.success (.dict [(.nan 1, .outcome ⟨0⟩), (.str "k" 2, .tuple [.nan 1] 3)] 9), []⟩,
      ⟨.success (.dict [(.str "k" 2, .tuple [.nan 1] 4), (.nan 1, .outcome ⟨1⟩)] 10), []⟩]
    nextStamp := 11 }

theorem sampleStore_realm : sampleStore.Realm (· ∈ sampleValues) where
  parts {v} inside := by
    revert v
    simp [sampleValues, sampleStore, parts, fault, outcome, Fault.cause?, Environment.get?,
      Fault.causeName]
  noToken t := by simp [sampleValues]
  noTree t := by simp [sampleValues]
  stamp inside inside' first second :=
    -- no two values of the sample have one identity
    List.inj_on_of_nodup_map (f := Value.identity) (by decide) inside inside'
      (first.trans second.symm)
  keys {entries n} inside := by
    simp only [sampleValues, List.mem_cons, List.not_mem_nil, or_false, reduceCtorEq, false_or,
      Value.dict.injEq] at inside
    have apart : sampleStore.areSameKey (.nan 1) (.str "k" 2) = .ok false := rfl
    have apart' : sampleStore.areSameKey (.str "k" 2) (.nan 1) = .ok false := rfl
    obtain ⟨rfl, rfl⟩ | ⟨rfl, rfl⟩ := inside
    · exact ⟨by simpa using ⟨rfl, rfl⟩, by simp [apart]⟩
    · exact ⟨by simpa using ⟨rfl, rfl⟩, by simp [apart']⟩
  marks {p} inside := by simp [sampleValues] at inside
  args {e} inside := by
    simp only [sampleValues, List.mem_cons, List.not_mem_nil, or_false, reduceCtorEq, false_or,
      Value.fault.injEq] at inside
    obtain rfl | rfl | rfl | rfl := inside <;> exact ⟨_, _, rfl⟩
  cause {e} inside failed := by
    simp only [sampleValues, List.mem_cons, List.not_mem_nil, or_false, reduceCtorEq, false_or,
      Value.fault.injEq] at inside
    obtain rfl | rfl | rfl | rfl := inside
    · cases failed
    · cases failed
    · exact .inr ⟨⟨0⟩, rfl⟩
    · exact .inr ⟨⟨1⟩, rfl⟩
  raised {o x} inside raised := by
    simp only [sampleValues, List.mem_cons, List.not_mem_nil, or_false, reduceCtorEq, false_or,
      Value.outcome.injEq] at inside
    obtain rfl | rfl | rfl | rfl := inside <;> cases raised <;> exact ⟨_, rfl⟩

/-- The two dictionaries of the sample are equal either way, and the copy of a failed call is
equivalent to the failed call when both have got a place. -/
theorem sampleStore_comparisons :
    sampleStore.Realm (· ∈ sampleValues) ∧
      sampleStore.areEqual (.outcome ⟨2⟩) (.outcome ⟨3⟩) = .ok true ∧
      sampleStore.areEqual (.outcome ⟨3⟩) (.outcome ⟨2⟩) = .ok true ∧
      sampleStore.areEqual (.outcome ⟨0⟩) (.outcome ⟨2⟩) = .ok false ∧
      ∃ d t, (Attempt.copyFault ⟨2⟩).runOn sampleStore = (.ok d, t) ∧
        ((t.locate ⟨2⟩ (.bool true)).locate d (.bool false)).areEquivalent (.fault ⟨2⟩) (.fault d) =
          .ok true := by
  have equal : sampleStore.areEqual (.outcome ⟨2⟩) (.outcome ⟨3⟩) = .ok true := rfl
  have ⟨_, outcomes, apart, copies⟩ := Realm.comparisons sampleStore_realm
  obtain ⟨d, t, copied, -, equivalent⟩ := copies ⟨2⟩ (by simp [sampleValues])
  cases copied
  exact ⟨sampleStore_realm, equal,
    outcomes.symm (x := ⟨⟨2⟩, by simp [sampleValues]⟩) (y := ⟨⟨3⟩, by simp [sampleValues]⟩) equal,
    (apart ⟨2⟩ ⟨0⟩ _ _ rfl rfl).2, _, _, rfl, (equivalent _ ⟨_, rfl⟩ ⟨_, rfl⟩).1⟩

end Store

end Fallback
