import Fallback.Proofs.Shape
import Mathlib.Data.Fintype.EquivFin
import Mathlib.Data.List.Forall2
import Mathlib.Data.List.Perm.Subperm

/-!
Being alike: the same thing, or equal.

`Store.Alike` is what the parts of two equal values are to each other, and `Store.AlikeShapes` says
kind by kind what makes two shapes equal (`equalShapes_iff`). A dictionary is looked through in the
order of its entries, so that its comparison rests on laws of the comparison of keys which hold of
every answer and not only of a positive one: `KeyLaws` is proved first, by induction on the depth.
-/
namespace Fallback

/-! ## Positive answers -/

theorem bothHold_iff {x : Compared} {y : Unit → Compared} :
    bothHold x y = .ok true ↔ x = .ok true ∧ y () = .ok true := by
  cases x with
  | error m => simp [bothHold, bind, Except.bind]
  | ok b => cases b <;> simp [bothHold, bind, Except.bind, pure, Except.pure]

theorem relatedItems_iff {r : Value → Value → Compared} :
    ∀ {as bs : List Value},
      relatedItems r as bs = .ok true ↔ List.Forall₂ (fun a b => r a b = .ok true) as bs
  | [], [] => by simp [relatedItems]
  | [], _ :: _ => by simp [relatedItems]
  | _ :: _, [] => by simp [relatedItems]
  | a :: as, b :: bs => by
    rw [relatedItems, bothHold_iff, relatedItems_iff, List.forall₂_cons]

/-- A look through a dictionary ends at the first entry whose key is related, and finds its value
if the keys before it are known to be unrelated. -/
def FindsAt (r : Value → Value → Compared) (key : Value) (entries : List (Value × Value))
    (i : Fin entries.length) : Prop :=
  r key (entries.get i).1 = .ok true ∧ ∀ j < i, r key (entries.get j).1 = .ok false

theorem findsAt_zero {r : Value → Value → Compared} {key : Value} {entry : Value × Value}
    {more : List (Value × Value)} :
    FindsAt r key (entry :: more) 0 ↔ r key entry.1 = .ok true := by
  simp [FindsAt]

theorem findsAt_succ {r : Value → Value → Compared} {key : Value} {entry : Value × Value}
    {more : List (Value × Value)} {i : Fin more.length} :
    FindsAt r key (entry :: more) i.succ ↔
      r key entry.1 = .ok false ∧ FindsAt r key more i := by
  simp [FindsAt, Fin.forall_fin_succ, and_left_comm]

theorem findEntry_iff {r : Value → Value → Compared} {key v : Value} :
    ∀ {entries : List (Value × Value)}, findEntry r key entries = .ok (some v) ↔
      ∃ i : Fin entries.length, FindsAt r key entries i ∧ (entries.get i).2 = v
  | [] => by simp [findEntry]
  | entry :: more => by
    have step : findEntry r key (entry :: more) = .ok (some v) ↔
        r key entry.1 = .ok true ∧ entry.2 = v ∨
          r key entry.1 = .ok false ∧ findEntry r key more = .ok (some v) := by
      rw [findEntry]
      cases r key entry.1 with
      | error m => simp [bind, Except.bind]
      | ok b => cases b <;> simp [bind, Except.bind, pure, Except.pure]
    rw [step, findEntry_iff]
    constructor
    · rintro (⟨related, rfl⟩ | ⟨other, i, finds, rfl⟩)
      · exact ⟨⟨0, Nat.zero_lt_succ _⟩, findsAt_zero.mpr related, rfl⟩
      · exact ⟨i.succ, findsAt_succ.mpr ⟨other, finds⟩, rfl⟩
    · rintro ⟨i, finds, rfl⟩
      cases i using Fin.cases with
      | zero => exact .inl ⟨findsAt_zero.mp finds, rfl⟩
      | succ i =>
        have ⟨other, finds⟩ := findsAt_succ.mp finds
        exact .inr ⟨other, i, finds, rfl⟩

theorem relatedEntries_iff {r : Value → Value → Compared} {bs : List (Value × Value)} :
    ∀ {as : List (Value × Value)}, relatedEntries r as bs = .ok true ↔
      ∀ entry ∈ as, ∃ v, findEntry (asKeys r) entry.1 bs = .ok (some v) ∧ r entry.2 v = .ok true
  | [] => by simp [relatedEntries]
  | entry :: more => by
    rw [relatedEntries, List.forall_mem_cons, ← @relatedEntries_iff r bs more]
    cases findEntry (asKeys r) entry.1 bs with
    | error m => simp [bind, Except.bind]
    | ok found =>
      cases found with
      | none => simp [bind, Except.bind, pure, Except.pure]
      | some v => simp [bind, Except.bind, bothHold_iff]

theorem relatedAttributes_iff {r : Value → Value → Compared} {bs : Attributes} :
    ∀ {as : Attributes}, relatedAttributes r as bs = .ok true ↔
      ∀ a ∈ as, ∃ v, Environment.get? bs a.1 = some v ∧ r a.2 v = .ok true
  | [] => by simp [relatedAttributes]
  | a :: more => by
    rw [relatedAttributes, List.forall_mem_cons, ← @relatedAttributes_iff r bs more]
    cases Environment.get? bs a.1 with
    | none => simp
    | some v => simp [bothHold_iff]

/-! ## Alike -/

namespace Store

/-- The two are the same thing, or found equal at the depth. -/
def Alike (s : Store) (depth : Nat) (v w : Value) : Prop :=
  sameOr (s.equal depth) v w = .ok true

/-- What makes two shapes equal when so much depth is left for their parts. -/
inductive AlikeShapes (s : Store) : Nat → Shape → Shape → Prop
  | tuple {n as bs} (items : List.Forall₂ (s.Alike n) as bs) : AlikeShapes s n (.tuple as) (.tuple bs)
  | list {n as bs} (items : List.Forall₂ (s.Alike n) as bs) : AlikeShapes s n (.list as) (.list bs)
  | dict {n as bs} (length : as.length = bs.length)
      (entries : ∀ entry ∈ as, ∃ i : Fin bs.length,
        FindsAt (asKeys (sameOr (s.equal n))) entry.1 bs i ∧ s.Alike n entry.2 (bs.get i).2) :
      AlikeShapes s n (.dict as) (.dict bs)
  | position {n as bs} (length : as.length = bs.length)
      (marks : ∀ a ∈ as, ∃ v, Environment.get? bs a.1 = some v ∧ s.Alike n a.2 v) :
      AlikeShapes s n (.position as) (.position bs)
  | node {n f g} (kind : f.kind = g.kind) (fields : List.Forall₂ (s.Alike n) f.values g.values) :
      AlikeShapes s (n + 2) (.node f) (.node g)
  | success {n x y} (value : s.Alike n x y) :
      AlikeShapes s (n + 1) (.outcome (.success x)) (.outcome (.success y))
  | raised {n x y} (fault : s.equivalent n x y = .ok true) :
      AlikeShapes s (n + 1) (.outcome (.raised x)) (.outcome (.raised y))
  | text {n} (t) : AlikeShapes s n (.text t) (.text t)
  | number {n} (x) : AlikeShapes s n (.number (some x)) (.number (some x))
  | thing {n} (i) : AlikeShapes s n (.thing i) (.thing i)

variable {s : Store} {n : Nat}

theorem alike_iff {v w : Value} :
    s.Alike n v w ↔ v.isSame w = true ∨ s.equal n v w = .ok true := by
  unfold Alike sameOr
  cases v.isSame w <;> simp

theorem AlikeShapes.of_equalShapes {X Y : Shape} (h : s.equalShapes n X Y = .ok true) :
    s.AlikeShapes n X Y := by
  unfold equalShapes at h
  split at h
  · exact .tuple (relatedItems_iff.mp h)
  · split at h
    · exact .list (relatedItems_iff.mp h)
    · cases h
  · split at h
    · next length =>
      refine .dict length fun entry inside => ?_
      obtain ⟨v, found, alike⟩ := relatedEntries_iff.mp h entry inside
      obtain ⟨i, finds, rfl⟩ := findEntry_iff.mp found
      exact ⟨i, finds, alike⟩
    · cases h
  · split at h
    · next length => exact .position length (relatedAttributes_iff.mp h)
    · cases h
  · split at h
    · split at h
      · next kind => exact .node kind (relatedItems_iff.mp h)
      · cases h
    · cases h
  · split at h
    · exact .success h
    · exact .raised h
    · cases h
    · cases h
  · obtain rfl := of_decide_eq_true (Except.ok.inj h)
    exact .text _
  · next x y =>
    simp only [Except.ok.injEq, Bool.and_eq_true, decide_eq_true_eq, Option.isSome_iff_exists] at h
    obtain ⟨⟨units, rfl⟩, rfl⟩ := h
    exact .number units
  · obtain rfl := of_decide_eq_true (Except.ok.inj h)
    exact .thing _
  · cases h

theorem AlikeShapes.equalShapes {X Y : Shape} (h : s.AlikeShapes n X Y) :
    s.equalShapes n X Y = .ok true := by
  cases h with
  | tuple items => exact relatedItems_iff.mpr items
  | list items =>
    rw [Store.equalShapes, if_pos items.length_eq]
    exact relatedItems_iff.mpr items
  | dict length entries =>
    rw [Store.equalShapes, if_pos length]
    refine relatedEntries_iff.mpr fun entry inside => ?_
    obtain ⟨i, finds, alike⟩ := entries entry inside
    exact ⟨_, findEntry_iff.mpr ⟨i, finds, rfl⟩, alike⟩
  | position length marks =>
    rw [Store.equalShapes, if_pos length]
    exact relatedAttributes_iff.mpr marks
  | node kind fields =>
    rw [Store.equalShapes, if_pos kind]
    exact relatedItems_iff.mpr fields
  | success value => exact value
  | raised fault => exact fault
  | text t => simp [Store.equalShapes]
  | number x => simp [Store.equalShapes]
  | thing i => simp [Store.equalShapes]

theorem equalShapes_iff {X Y : Shape} :
    s.equalShapes n X Y = .ok true ↔ s.AlikeShapes n X Y :=
  ⟨.of_equalShapes, AlikeShapes.equalShapes⟩

/-! ## Keys -/

/-- A value of a realm that can be a key. -/
def IsKey (s : Store) (D : Value → Prop) (v : Value) : Prop :=
  D v ∧ ∃ depth, s.hashCheck depth v = .ok ()

/-- The shapes of keys, whose parts are keys. -/
inductive KeyShape (K : Value → Prop) : Shape → Prop
  | tuple {items} (keys : ∀ p ∈ items, K p) : KeyShape K (.tuple items)
  | node {form : Form} (keys : ∀ p ∈ form.values, K p) : KeyShape K (.node form)
  | text (t) : KeyShape K (.text t)
  | number (x) : KeyShape K (.number x)
  | thing (i) : KeyShape K (.thing i)

end Store

theorem forM_eq_ok {f : Value → Except Misuse Unit} :
    ∀ {vs : List Value}, vs.forM f = .ok () → ∀ v ∈ vs, f v = .ok ()
  | [], _ => by simp
  | v :: vs, h => by
    change (f v >>= fun _ => vs.forM f) = .ok () at h
    cases first : f v with
    | error m =>
      rw [first] at h
      cases h
    | ok _ =>
      rw [first] at h
      exact List.forall_mem_cons.mpr ⟨first, forM_eq_ok h⟩

theorem relatedItems_comm {r : Value → Value → Compared} :
    ∀ {as bs : List Value}, (∀ a ∈ as, ∀ b ∈ bs, r a b = r b a) →
      relatedItems r as bs = relatedItems r bs as
  | [], [], _ => rfl
  | [], _ :: _, _ => rfl
  | _ :: _, [], _ => rfl
  | a :: as, b :: bs, h => by
    have rest := relatedItems_comm fun x hx y hy =>
      h x (List.mem_cons_of_mem a hx) y (List.mem_cons_of_mem b hy)
    rw [relatedItems, relatedItems, rest, h a List.mem_cons_self b List.mem_cons_self]

theorem relatedItems_congr {r : Value → Value → Compared} {as bs : List Value}
    (related : List.Forall₂ (fun a b => r a b = .ok true) as bs) :
    ∀ {cs : List Value}, (∀ a ∈ as, ∀ b ∈ bs, ∀ c ∈ cs, r a b = .ok true → r a c = r b c) →
      relatedItems r as cs = relatedItems r bs cs := by
  induction related with
  | nil => exact fun _ => rfl
  | @cons a b as bs first _ ih =>
    intro cs h
    cases cs with
    | nil => rfl
    | cons c cs =>
      have rest := ih fun x hx y hy z hz =>
        h x (List.mem_cons_of_mem a hx) y (List.mem_cons_of_mem b hy) z (List.mem_cons_of_mem c hz)
      rw [relatedItems, relatedItems, rest,
        h a List.mem_cons_self b List.mem_cons_self c List.mem_cons_self first]

namespace Store

variable {s : Store} {D : Value → Prop} {n : Nat}

/-- What the comparison of keys keeps at a depth, whatever its answer is. -/
structure KeyLaws (s : Store) (D : Value → Prop) (n : Nat) : Prop where
  comm {v w} (hv : s.IsKey D v) (hw : s.IsKey D w) : s.equal n v w = s.equal n w v
  congr {u v w} (hu : s.IsKey D u) (hv : s.IsKey D v) (hw : s.IsKey D w)
    (equal : s.equal n u v = .ok true) : s.equal n u w = s.equal n v w

variable {u v w : Value}

namespace Realm

variable (h : s.Realm D)
include h

theorem equal_left_of_isSame (hu : D u) (hv : D v) (hw : D w) (same : u.isSame v = true) :
    s.equal n u w = s.equal n v w := by
  cases n with
  | zero => rw [equal, equal]
  | succ n => rw [h.equal_succ n hu hw, h.equal_succ n hv hw, h.shape_eq_of_isSame hu hv same]

theorem equal_right_of_isSame (hu : D u) (hv : D v) (hw : D w) (same : v.isSame w = true) :
    s.equal n u v = s.equal n u w := by
  cases n with
  | zero => rw [equal, equal]
  | succ n => rw [h.equal_succ n hu hv, h.equal_succ n hu hw, h.shape_eq_of_isSame hv hw same]

theorem keyShape (hv : s.IsKey D v) : KeyShape (s.IsKey D) (s.shape v) := by
  obtain ⟨inside, depth, hashed⟩ := hv
  have parts := h.parts inside
  cases depth with
  | zero => cases hashed
  | succ depth =>
    cases v with
    | tuple items _ =>
      exact .tuple fun p hp => ⟨parts p hp, depth, forM_eq_ok hashed p hp⟩
    | node m =>
      cases depth with
      | zero => cases hashed
      | succ below => exact .node fun p hp => ⟨parts p hp, below, forM_eq_ok hashed p hp⟩
    | list | dict | outcome | position => cases hashed
    | tree t => exact absurd inside (h.noTree t)
    | str t _ => exact .text t
    | bool | int | float | nan => exact .number _
    | _ => exact .thing _

end Realm

namespace KeyLaws

variable (laws : s.KeyLaws D n)
include laws

theorem sameOr_comm (hv : s.IsKey D v) (hw : s.IsKey D w) :
    sameOr (s.equal n) v w = sameOr (s.equal n) w v := by
  have same : v.isSame w = w.isSame v := by
    rw [Bool.eq_iff_iff]
    exact ⟨Value.isSame_symm, Value.isSame_symm⟩
  rw [sameOr, sameOr, same, laws.comm hv hw]

theorem sameOr_congr (h : s.Realm D) (hu : s.IsKey D u) (hv : s.IsKey D v) (hw : s.IsKey D w)
    (alike : s.Alike n u v) : sameOr (s.equal n) u w = sameOr (s.equal n) v w := by
  obtain same | equal := alike_iff.mp alike
  · have identity : u.identity = v.identity := of_decide_eq_true same
    rw [sameOr, sameOr, h.equal_left_of_isSame hu.1 hv.1 hw.1 same, Value.isSame, Value.isSame,
      identity]
  · by_cases first : u.isSame w = true
    · -- the second is equal to the first, which is the third
      have third : s.Alike n v w := alike_iff.mpr <| .inr <| by
        rw [← h.equal_right_of_isSame hv.1 hu.1 hw.1 first, laws.comm hv hu, equal]
      rw [show sameOr (s.equal n) v w = .ok true from third, sameOr, if_pos first]
    · by_cases second : v.isSame w = true
      · rw [sameOr, sameOr, if_neg first, if_pos second,
          ← h.equal_right_of_isSame hu.1 hv.1 hw.1 second, equal]
      · rw [sameOr, sameOr, if_neg first, if_neg second, laws.congr hu hv hw equal]

end KeyLaws

/-- The comparison of the shapes of keys gives the same answer either way. -/
theorem equalShapes_comm (below : ∀ k ≤ n, s.KeyLaws D k) {X Y : Shape}
    (hX : KeyShape (s.IsKey D) X) (hY : KeyShape (s.IsKey D) Y) :
    s.equalShapes n X Y = s.equalShapes n Y X := by
  cases hX with
  | tuple keys =>
    cases hY with
    | tuple keys' =>
      exact relatedItems_comm fun a ha b hb =>
        (below n (Nat.le_refl n)).sameOr_comm (keys a ha) (keys' b hb)
    | _ => rfl
  | @node f keys =>
    cases hY with
    | @node g keys' =>
      match n with
      | 0 | 1 => rfl
      | fields + 2 =>
        have items : relatedItems (sameOr (s.equal fields)) f.values g.values =
            relatedItems (sameOr (s.equal fields)) g.values f.values :=
          relatedItems_comm fun a ha b hb =>
            (below fields (by omega)).sameOr_comm (keys a ha) (keys' b hb)
        rw [equalShapes, equalShapes, items]
        simp only [eq_comm (a := f.kind)]
    | _ => rfl
  | text t =>
    cases hY with
    | text t' =>
      rw [equalShapes, equalShapes]
      simp only [eq_comm (a := t)]
    | _ => rfl
  | number x =>
    cases hY with
    | number y =>
      rw [equalShapes, equalShapes]
      by_cases same : x = y
      · rw [same]
      · simp [same, Ne.symm same]
    | _ => rfl
  | thing i =>
    cases hY with
    | thing j =>
      rw [equalShapes, equalShapes]
      simp only [eq_comm (a := i)]
    | _ => rfl

/-- Keys whose shapes are equal compare alike with every key. -/
theorem equalShapes_congr (h : s.Realm D) (below : ∀ k ≤ n, s.KeyLaws D k) {X Y Z : Shape}
    (hX : KeyShape (s.IsKey D) X) (hY : KeyShape (s.IsKey D) Y) (hZ : KeyShape (s.IsKey D) Z)
    (alike : s.AlikeShapes n X Y) : s.equalShapes n X Z = s.equalShapes n Y Z := by
  cases alike with
  | text | number | thing => rfl
  | tuple items =>
    have .tuple keys := hX
    have .tuple keys' := hY
    cases hZ with
    | tuple keys'' =>
      exact relatedItems_congr items fun a ha b hb c hc =>
        (below n (Nat.le_refl n)).sameOr_congr h (keys a ha) (keys' b hb) (keys'' c hc)
    | _ => rfl
  | @node fields f g kind items =>
    have .node keys := hX
    have .node keys' := hY
    cases hZ with
    | node keys'' =>
      rw [equalShapes, equalShapes, kind,
        relatedItems_congr items fun a ha b hb c hc =>
          (below fields (by omega)).sameOr_congr h (keys a ha) (keys' b hb) (keys'' c hc)]
    | _ => rfl
  | list | dict | position | success | raised => nomatch hX

theorem Realm.keyLaws (h : s.Realm D) (n : Nat) : s.KeyLaws D n := by
  induction n using Nat.strongRecOn with
  | ind n ih =>
    cases n with
    | zero => exact ⟨fun _ _ => by rw [equal, equal], fun _ _ _ _ => by rw [equal, equal]⟩
    | succ n =>
      have below (k) (le : k ≤ n) := ih k (Nat.lt_succ_of_le le)
      refine ⟨fun {v w} hv hw => ?_, fun {u v w} hu hv hw equal => ?_⟩
      · rw [h.equal_succ n hv.1 hw.1, h.equal_succ n hw.1 hv.1]
        exact equalShapes_comm below (h.keyShape hv) (h.keyShape hw)
      · rw [h.equal_succ n hu.1 hv.1] at equal
        rw [h.equal_succ n hu.1 hw.1, h.equal_succ n hv.1 hw.1]
        exact equalShapes_congr h below (h.keyShape hu) (h.keyShape hv) (h.keyShape hw)
          (.of_equalShapes equal)

end Store

end Fallback
