import Fallback.Proofs.Lockstep
import Fallback.Proofs.Residue

/-!
What raising nodes hold does not steer an evaluation.

Two trees that differ in nothing but the faults that their raising nodes hold are evaluated in one
world and for one request. Then they enter nodes that stand for each other, in the same order, and
leave the same records: `Position.Corresponding` says so of what they enter, and `World.Like` of the
invocations, the debug log, the trace and the host. What they end with belongs together as
`Position.Agree` says.

## The side conditions

The host has to treat alike what is alike, which is `Host.Respects`. It also has to leave trees
alone.

A recoverable fault may have been given a way of its own to be copied. That way is invoked whenever
a raising node raises the fault, and it may do anything, so the faults in which the trees differ
must have none. The last section has two trees for which nothing else is wrong, and the one
evaluation makes an invocation that the other does not make.
-/
namespace Fallback

open List (Forall₂)
open Relation (ReflTransGen TransGen)

variable {σ : Type} {host : Host σ} {L : Likeness σ} {ρ ρ₁ : Pairing} {base : Store}

namespace Position

variable {p p' c c' root root' : Position σ} {os os' : List Outcome} {r r' : Run σ}
  {is : List Nat}

/-! ## Ways -/

/-- The way from a visit down to another one: how many operands were visited before at each visit on
it. -/
inductive Way (host : Host σ) : Position σ → List Nat → Position σ → Prop
  | here (p : Position σ) : p.Way host [] p
  | down {p c d : Position σ} {os : List Outcome} {is : List Nat} (visits : p.Visits host os d)
    (below : d.Way host is c) : p.Way host (os.length :: is) c

theorem Way.of_cons {i : Nat} (h : p.Way host (i :: is) c) :
    ∃ os d, os.length = i ∧ p.Visits host os d ∧ d.Way host is c := by
  generalize same : i :: is = js at h
  cases h with
  | here => cases same
  | down visits below =>
    cases same
    exact ⟨_, _, rfl, visits, below⟩

theorem Way.reaches (h : p.Way host is c) : p.Reaches host c := by
  induction h with
  | here => exact .refl
  | down visits _ ih => exact visits.reaches.trans ih

/-- There is a way to every visit that is reached. -/
theorem Reaches.exists_way (h : p.Reaches host c) : ∃ is, p.Way host is c := by
  induction h using ReflTransGen.head_induction_on with
  | refl => exact ⟨[], .here c⟩
  | head step _ ih =>
    obtain ⟨is, below⟩ := ih
    obtain ⟨slot, child⟩ := step
    obtain ⟨os, visits⟩ := child.visits
    exact ⟨_, .down visits below⟩

theorem Way.append {js : List Nat} (h : p.Way host is c) (below : c.Way host js c') :
    p.Way host (is ++ js) c' := by
  induction h with
  | here => exact below
  | down visits _ ih => exact .down visits (ih below)

/-- Where two ways part, the visit on the one that has fewer operands behind it comes first. So the
order of the ways is the order in which the visits are made. -/
theorem Way.precedes {i j : Nat} {js ks : List Nat} (h : p.Way host (is ++ i :: js) c)
    (h' : p.Way host (is ++ j :: ks) c') (less : i < j) : p.Precedes host c c' := by
  induction is generalizing p with
  | nil =>
    obtain ⟨os, d, rfl, visits, below⟩ := h.of_cons
    obtain ⟨os', d', rfl, visits', below'⟩ := h'.of_cons
    exact ⟨.refl, visits, visits', less, below.reaches, below'.reaches⟩
  | cons k is ih =>
    obtain ⟨os, d, length, visits, below⟩ := h.of_cons
    obtain ⟨os', d', length', visits', below'⟩ := h'.of_cons
    obtain rfl := visits.unique visits' (length.trans length'.symm)
    exact (ih below below').above visits.reaches

/-- The node was entered. -/
def IsEntered (host : Host σ) (p : Position σ) : Prop :=
  ∃ r, p.Progress host [] r

/-- The two visits enter nodes that stand for each other, below them as well, on the same ways and
therefore in the same order. -/
structure Corresponding (host : Host σ) (L : Likeness σ) (p p' : Position σ) : Prop where
  forth {is : List Nat} {c : Position σ} (way : p.Way host is c) (entered : c.IsEntered host) :
    ∃ c', p'.Way host is c' ∧ c'.IsEntered host ∧ L.nodes c.node c'.node
  back {is : List Nat} {c' : Position σ} (way : p'.Way host is c') (entered : c'.IsEntered host) :
    ∃ c, p.Way host is c ∧ c.IsEntered host ∧ L.nodes c.node c'.node

/-- What is entered on both sides is entered in the same order. -/
theorem Corresponding.precedes {d : Position σ} (h : p.Corresponding host L p')
    (before : p.Precedes host c d) (entered : c.IsEntered host) (entered' : d.IsEntered host) :
    ∃ c' d', p'.Precedes host c' d' ∧ L.nodes c.node c'.node ∧ L.nodes d.node d'.node := by
  obtain ⟨above, first, second, earlier, below, below'⟩ := before
  obtain ⟨is, way⟩ := above.exists_way
  obtain ⟨js, way₁⟩ := below.exists_way
  obtain ⟨ks, way₂⟩ := below'.exists_way
  obtain ⟨c', on, -, nodes⟩ := h.forth (way.append (.down first way₁)) entered
  obtain ⟨d', on', -, nodes'⟩ := h.forth (way.append (.down second way₂)) entered'
  exact ⟨c', d', on.precedes on' earlier, nodes, nodes'⟩

section Ways

variable (comparable : Comparable host L base root root') (twin : p.Twin L base ρ p')
  (reached : root.Reaches host p) (reached' : root'.Reaches host p')
include comparable twin reached reached'

theorem Twin.alongside (progress : p.Progress host os r) :
    ∃ ρ₁ os' r', p'.Progress host os' r' ∧ r.Like L ρ₁ r' ∧
      Forall₂ (Corresponds host L base root root' ρ₁) os os' := by
  obtain ⟨ρ₁, os', r', -, done⟩ := twin.exists_progress comparable reached reached'
    (fun _ twins reached reached' => twins.endsAlike comparable reached reached') progress
  exact ⟨ρ₁, os', r', done⟩

/-- However far the other visit comes, the one comes as far. -/
theorem Twin.alongside' (progress : p'.Progress host os' r') :
    ∃ ρ₁ os r, p.Progress host os r ∧ r.Like L ρ₁ r' ∧
      Forall₂ (Corresponds host L base root root' ρ₁) os os' := by
  induction progress with
  | @entered r' budget enter =>
    have enters := twin.matches_enterNode comparable
    rw [enter] at enters
    obtain ⟨kind, r, ρ₁, enter', -, alike, -⟩ := enters.of_ok_right
    obtain rfl : kind = p.kind := (enterNode_ok enter').1
    exact ⟨ρ₁, [], r, .entered (twin.budget.symm ▸ budget) enter', alike, .nil⟩
  | @visited os' r' i w r₁' o' r₂' before decided visit ih =>
    obtain ⟨ρ₁, os, r, progress, alike, all⟩ := ih
    have moves := twin.matches_next comparable reached reached' progress before alike all
    rw [decided] at moves
    obtain ⟨_, r₁, ρ₂, decided', le, alike', move⟩ := moves.of_ok_right
    cases move with
    | @visit v _ _ operands =>
      obtain ⟨c, c', rfl, rfl, child, child', rfl, rfl, twins⟩ :=
        twin.child comparable progress before decided' decided operands alike'
      have ends := twins.endsAlike comparable (reached.tail ⟨i, child⟩) (reached'.tail ⟨i, child'⟩)
      rw [EndsAlike, ← child.ending_eq, ← child'.ending_eq, visit] at ends
      obtain ⟨o, r₂, ρ₃, visit', le', alike'', corresponds⟩ := ends.of_ok_right
      have earlier := all.imp fun _ _ both => both.mono (le_trans le le')
      exact ⟨ρ₃, os ++ [o], r₂, .visited progress decided' visit', alike'',
        List.rel_append earlier (.cons corresponds .nil)⟩

omit reached reached' in
/-- Where both rules visit an operand, the visits to it are twins. -/
theorem Twin.visits_of_next (progress : p.Progress host os r) (progress' : p'.Progress host os' r')
    {i : Nat} {v w : Value} {r₁ r₁' : Run σ}
    (decided : (p.form.next host os).runOn r = (.ok (.visit i v), r₁))
    (decided' : (p'.form.next host os').runOn r' = (.ok (.visit i w), r₁'))
    (operands : v.Twin L.nodes w) (alike : r₁.Like L ρ₁ r₁') :
    ∃ c c', p.Visits host os c ∧ p'.Visits host os' c' ∧ c.Twin L base ρ₁ c' := by
  obtain ⟨c, c', rfl, rfl, child, child', rfl, rfl, twins⟩ :=
    twin.child comparable progress progress' decided decided' operands alike
  exact ⟨c, c', ⟨child.budget, _, i, progress, decided⟩, ⟨child'.budget, _, i, progress', decided'⟩,
    twins⟩

/-- Twin visits make twin visits after as many operands. -/
theorem Twin.visits (h : p.Visits host os c) :
    ∃ ρ₁ os' c', os.length = os'.length ∧ p'.Visits host os' c' ∧ c.Twin L base ρ₁ c' := by
  obtain ⟨r, slot, progress, decided⟩ := h.decided
  obtain ⟨ρ₁, os', r', progress', alike, all⟩ := twin.alongside comparable reached reached' progress
  have moves := twin.matches_next comparable reached reached' progress progress' alike all
  rw [decided] at moves
  obtain ⟨_, r₁', ρ₂, decided', -, alike', move⟩ := moves.of_ok
  cases move with
  | visit _ operands =>
    obtain ⟨d, d', visits, visits', twins⟩ :=
      twin.visits_of_next comparable progress progress' decided decided' operands alike'
    obtain rfl := h.unique visits rfl
    exact ⟨ρ₂, os', d', all.length_eq, visits', twins⟩

theorem Twin.visits' (h : p'.Visits host os' c') :
    ∃ ρ₁ os c, os.length = os'.length ∧ p.Visits host os c ∧ c.Twin L base ρ₁ c' := by
  obtain ⟨r', slot, progress', decided'⟩ := h.decided
  obtain ⟨ρ₁, os, r, progress, alike, all⟩ :=
    twin.alongside' comparable reached reached' progress'
  have moves := twin.matches_next comparable reached reached' progress progress' alike all
  rw [decided'] at moves
  obtain ⟨_, r₁, ρ₂, decided, -, alike', move⟩ := moves.of_ok_right
  cases move with
  | visit _ operands =>
    obtain ⟨d, d', visits, visits', twins⟩ :=
      twin.visits_of_next comparable progress progress' decided decided' operands alike'
    obtain rfl := h.unique visits' rfl
    exact ⟨ρ₂, os, d, all.length_eq, visits, twins⟩

/-- Every way of the one visit is a way of the other, and leads to a twin visit. -/
theorem Twin.way (h : p.Way host is c) : ∃ ρ₁ c', p'.Way host is c' ∧ c.Twin L base ρ₁ c' := by
  induction h generalizing ρ p' with
  | here => exact ⟨ρ, p', .here p', twin⟩
  | down visits _ ih =>
    obtain ⟨ρ₁, os', d', length, visits', twins⟩ := twin.visits comparable reached reached' visits
    obtain ⟨ρ₂, c', below', twins'⟩ :=
      ih twins (reached.trans visits.reaches) (reached'.trans visits'.reaches)
    exact ⟨ρ₂, c', length ▸ .down visits' below', twins'⟩

theorem Twin.way' (h : p'.Way host is c') : ∃ ρ₁ c, p.Way host is c ∧ c.Twin L base ρ₁ c' := by
  induction h generalizing ρ p with
  | here => exact ⟨ρ, p, .here p, twin⟩
  | down visits' _ ih =>
    obtain ⟨ρ₁, os, d, length, visits, twins⟩ := twin.visits' comparable reached reached' visits'
    obtain ⟨ρ₂, c, below, twins'⟩ :=
      ih twins (reached.trans visits.reaches) (reached'.trans visits'.reaches)
    exact ⟨ρ₂, c, length ▸ .down visits below, twins'⟩

/-- Of twin visits both enter their nodes or none does. -/
theorem Twin.isEntered_iff : p.IsEntered host ↔ p'.IsEntered host := by
  constructor
  · rintro ⟨r, progress⟩
    obtain ⟨ρ₁, os', r', progress', -, all⟩ :=
      twin.alongside comparable reached reached' progress
    cases all
    exact ⟨r', progress'⟩
  · rintro ⟨r', progress'⟩
    obtain ⟨ρ₁, os, r, progress, -, all⟩ :=
      twin.alongside' comparable reached reached' progress'
    cases all
    exact ⟨r, progress⟩

/-- Twin visits enter nodes that stand for each other. -/
theorem Twin.corresponding : p.Corresponding host L p' where
  forth way entered := by
    obtain ⟨ρ₁, c', way', twins⟩ := twin.way comparable reached reached' way
    have both := twins.isEntered_iff comparable (reached.trans way.reaches)
      (reached'.trans way'.reaches)
    exact ⟨c', way', both.1 entered, twins.nodes⟩
  back way' entered := by
    obtain ⟨ρ₁, c, way, twins⟩ := twin.way' comparable reached reached' way'
    have both := twins.isEntered_iff comparable (reached.trans way.reaches)
      (reached'.trans way'.reaches)
    exact ⟨c, way, both.2 entered, twins.nodes⟩

end Ways

end Position

/-! ## Faults without a way of their own -/

section Plain

variable {x : FaultRef} {r r' : Run σ}

/-- What is seen of less is changed by the host alone if what is seen of more is. -/
theorem Host.AloneChanges.map {α β : Type} {view : World σ → α} {w w' : World σ}
    (h : host.AloneChanges view w w') (f : α → β) :
    host.AloneChanges (fun w => f (view w)) w w' :=
  ReflTransGen.mono (fun _ _ step => step.imp id fun both => ⟨congrArg f both.1, both.2⟩) _ _ h

/-- Attaching a place does nothing to what a fault carries besides. -/
theorem Store.extras_attachPlace (s : Store) (v : Value) (o : Outcome)
    (made : x.index < s.faults.size) :
    ((s.attachPlace v o).fault x).extras = (s.fault x).extras := by
  by_cases raised : o.result = .raised (.fault x)
  · obtain ⟨place, same⟩ := fault_attachPlace_of_raised v made raised
    rw [same]
  · rw [fault_attachPlace_of_not_raised fun same => absurd same raised]

/-- Of what a fault carries besides only turns of the host change anything. -/
theorem Run.Leads.aloneChanges_extras (hk : host.KeepsTrees) (h : r.Leads host r')
    (made : x.index < r.world.store.faults.size) :
    host.AloneChanges (fun w => (faultIn x w).extras) r.world r'.world := by
  induction h with
  | refl => exact .refl
  | tail leads step ih =>
    have there := ((Run.Leads.le leads hk).kind made).1
    refine ih.trans ?_
    cases step with
    | quiet quiet => exact (Run.Quiet.aloneChanges hk (.single quiet) there).map Fault.extras
    | place v o => exact Host.AloneChanges.of_eq (Store.extras_attachPlace _ v o there) rfl

end Plain

namespace Position

variable {p c root root' : Position σ}

/-- A fault that has no way of its own to be copied when an evaluation begins has none when it is
raised, provided that no turn of the host gives it one. -/
theorem Reaches.not_copiesOwnWay (reached : p.Reaches host c) (hk : host.KeepsTrees)
    (keeps : ∀ {w w' x}, host.Turn w w' → (faultIn x w').extras = (faultIn x w).extras)
    (plain : ∀ {x}, c.form = .raise (.fault x) → x.index < p.run.world.store.faults.size ∧
      p.run.world.store.attribute? (.fault x) copyName = none) : ¬c.CopiesOwnWay host := by
  rintro ⟨x, r, raise, progress, -, own⟩
  obtain ⟨made, none⟩ := plain raise
  have same := (Run.Leads.aloneChanges_extras hk (reached.leads.trans progress.leads) made).eq keeps
  rw [Store.attribute?_copyName] at own none
  exact own (same ▸ none)

/-! ## The whole evaluation -/

/-- The outcomes are one and the same, and both are successes with like values, or both raise what
visits to nodes that stand for each other have produced: like values, unless the nodes raise
different faults. -/
inductive Agree (host : Host σ) (L : Likeness σ) (root root' : Position σ) (ρ : Pairing)
    (o o' : Outcome) : Prop
  | success {v w : Value} (self : o.self = o'.self) (first : o.result = .success v)
    (second : o'.result = .success w) (like : v.Like ρ w)
  | raised {e f : Value} {c c' : Position σ} {made made' : Run σ} (self : o.self = o'.self)
    (first : o.result = .raised e) (second : o'.result = .raised f) (reached : root.Reaches host c)
    (reached' : root'.Reaches host c') (nodes : L.nodes c.node c'.node)
    (produces : c.Produces host o e made) (produces' : c'.Produces host o' f made')
    (same : e.Like ρ f ∨ c.form.Swaps c'.form)

theorem Corresponds.agree {o o' : Outcome} (h : Corresponds host L base root root' ρ o o') :
    Agree host L root root' ρ o o' := by
  obtain ⟨v, w, first, second, like⟩ | ⟨e, f, first, second⟩ := h.twin.cases_result
  · exact .success h.twin.self first second like
  · obtain ⟨c, c', made, made', reached, reached', nodes, produces, produces', same⟩ :=
      h.accounts e f first second
    exact .raised h.twin.self first second reached reached' nodes produces produces' same

end Position

/-- The world and the request lead to nothing but what was made. -/
structure Request.IsClosed (L : Likeness σ) (q : Request) (w : World σ) : Prop where
  world : w.Like L (.identity w.store) w
  environment : q.environment.Like (.identity w.store) q.environment
  debug : q.options.debugTrace.Like (.identity w.store) q.options.debugTrace

/-- Evaluations of twin trees enter nodes that stand for each other in the same order. They leave
worlds that are the same up to a pairing: with the same invocations, the same debug log, traces that
belong together event by event, and like states of the host. And they end alike: both with outcomes
that agree, or both broken off by faults that belong together. -/
theorem runOn_evaluate_of_twins {q : Request} {w : World σ} {n m : NodeRef}
    (closed : q.IsClosed L w) (tree : w.store.IsTree n) (tree' : w.store.IsTree m)
    (nodes : L.nodes n m)
    (comparable : Position.Comparable host L w.store (.start q n w) (.start q m w)) :
    (Position.start q n w).Corresponding host L (.start q m w) ∧
    ∃ ρ, .identity w.store ≤ ρ ∧
      World.Like L ρ ((evaluate host q (.node n)).runOn w).2
        ((evaluate host q (.node m)).runOn w).2 ∧
      ρ.Ends (Position.Agree host L (.start q n w) (.start q m w) ρ)
        ((evaluate host q (.node n)).runOn w).1 ((evaluate host q (.node m)).runOn w).1 := by
  have twin : (Position.start q n w).Twin L w.store (.identity w.store) (.start q m w) :=
    ⟨⟨Position.isSound_start q tree, le_refl _, tree⟩,
      ⟨Position.isSound_start q tree', le_refl _, tree'⟩, rfl, nodes,
      ⟨closed.world, ⟨closed.environment, rfl, closed.debug, rfl, rfl⟩⟩, .nil⟩
  obtain ⟨ρ, le, alike, ends⟩ := twin.endsAlike comparable .refl .refl
  refine ⟨twin.corresponding comparable .refl .refl, ρ, le, ?_⟩
  rw [Position.runOn_evaluate, Position.runOn_evaluate]
  exact ⟨alike.world, ends.imp fun corresponds => corresponds.agree⟩

/-! ## A secret that stays one -/

/-- Two operators that fall back on any fault to the same literal, over nodes that raise recoverable
faults of different kinds, with different arguments. -/
def secretStore : Store :=
  { Store.empty with
    faults := #[
      ⟨.recoverable, .tuple [.str "lost" Store.noStamp] Store.noStamp, .null, .null, []⟩,
      ⟨.custom, .tuple [.str "secret" Store.noStamp] Store.noStamp, .null, .null, []⟩]
    nodes := #[
      ⟨.raise (.fault ⟨0⟩), .null, []⟩,
      ⟨.raise (.fault ⟨1⟩), .null, []⟩,
      ⟨.literal (.bool true), .null, []⟩,
      ⟨.fallback .onFault (.node ⟨0⟩) (.node ⟨2⟩), .null, []⟩,
      ⟨.fallback .onFault (.node ⟨1⟩) (.node ⟨2⟩), .null, []⟩] }

/-- The world with this store. -/
def secretWorld : World Unit :=
  ⟨secretStore, .empty, #[], ()⟩

/-- Which nodes of the two trees stand for each other. -/
def secretNodes (n m : NodeRef) : Prop :=
  n = ⟨0⟩ ∧ m = ⟨1⟩ ∨ n = ⟨2⟩ ∧ m = ⟨2⟩ ∨ n = ⟨3⟩ ∧ m = ⟨4⟩

theorem isTree_secretStore : secretStore.IsTree ⟨3⟩ ∧ secretStore.IsTree ⟨4⟩ := by
  have literal : secretStore.IsTree ⟨2⟩ := .of_trees [] (by decide) trivial rfl nofun
  have first : secretStore.IsTree ⟨0⟩ :=
    .of_trees [] (by decide) ⟨⟨0⟩, rfl, by decide, rfl⟩ rfl nofun
  have second : secretStore.IsTree ⟨1⟩ :=
    .of_trees [] (by decide) ⟨⟨1⟩, rfl, by decide, rfl⟩ rfl nofun
  exact ⟨.of_trees [⟨0⟩, ⟨2⟩] (by decide) trivial rfl (by simp [first, literal]),
    .of_trees [⟨1⟩, ⟨2⟩] (by decide) trivial rfl (by simp [second, literal])⟩

theorem twins_secretStore : secretStore.Twins secretNodes where
  form h := by
    obtain ⟨rfl, rfl⟩ | ⟨rfl, rfl⟩ | ⟨rfl, rfl⟩ := h
    · exact .raise ⟨0⟩ ⟨1⟩
    · exact .literal (.bool true)
    · exact .fallback .onFault ⟨⟨0⟩, ⟨1⟩, rfl, rfl, .inl ⟨rfl, rfl⟩⟩
        ⟨⟨2⟩, ⟨2⟩, rfl, rfl, .inr (.inl ⟨rfl, rfl⟩)⟩
  place h := by
    obtain ⟨rfl, rfl⟩ | ⟨rfl, rfl⟩ | ⟨rfl, rfl⟩ := h <;> rfl
  recurs h h' _ _ := by
    obtain ⟨rfl, rfl⟩ | ⟨rfl, rfl⟩ | ⟨rfl, rfl⟩ := h <;>
    obtain ⟨rfl, rfl⟩ | ⟨rfl, rfl⟩ | ⟨rfl, rfl⟩ := h' <;> decide

theorem like_secretStore : secretStore.Like (.identity secretStore) secretStore := by
  refine Store.RestLike.like_identity ?_ ?_ ?_
  · refine ⟨?_, .nil, fun _ => ⟨rfl, rfl, .nil⟩, fun _ => ⟨rfl, .plain rfl, .plain rfl, .nil⟩,
      fun _ => ⟨.plain rfl, .plain rfl, .plain rfl, .nil⟩, fun _ => .nil, fun _ => .nil, .nil, .nil,
      rfl, rfl⟩
    rintro ⟨_ | _ | _ | _ | _ | _⟩
    · exact ⟨⟨rfl, .cons (.fault ⟨rfl, by decide⟩) .nil⟩, .null, .nil⟩
    · exact ⟨⟨rfl, .cons (.fault ⟨rfl, by decide⟩) .nil⟩, .null, .nil⟩
    · exact ⟨⟨rfl, .cons (.plain rfl) .nil⟩, .null, .nil⟩
    · exact ⟨⟨rfl, .cons (.plain rfl) (.cons (.plain rfl) .nil)⟩, .null, .nil⟩
    · exact ⟨⟨rfl, .cons (.plain rfl) (.cons (.plain rfl) .nil)⟩, .null, .nil⟩
    · exact ⟨⟨rfl, .cons (.plain rfl) .nil⟩, .null, .nil⟩
  · rintro ⟨_ | _ | _⟩ made
    · exact ⟨rfl, .tuple _ (.cons (.str _ _) .nil), .null, .null, .nil⟩
    · exact ⟨rfl, .tuple _ (.cons (.str _ _) .nil), .null, .null, .nil⟩
    · exact absurd made (Nat.not_lt.2 (Nat.le_add_left 2 _))
  · intro o made
    exact absurd made (Nat.not_lt_zero _)

/-- The operators are evaluated alike, though the one discards a secret. -/
theorem runOn_evaluate_of_secret :
    let q : Request := { Request.standard with traced := true }
    let L := Likeness.ofNodes secretNodes
    let start := Position.start q ⟨3⟩ secretWorld
    let start' := Position.start q ⟨4⟩ secretWorld
    q.IsClosed L secretWorld ∧ secretStore.IsTree ⟨3⟩ ∧ secretStore.IsTree ⟨4⟩ ∧
    L.nodes ⟨3⟩ ⟨4⟩ ∧ Position.Comparable Host.idle L secretStore start start' ∧
    start.Corresponding Host.idle L start' ∧
    ∃ ρ, .identity secretStore ≤ ρ ∧
      World.Like L ρ ((evaluate Host.idle q (.node ⟨3⟩)).runOn secretWorld).2
        ((evaluate Host.idle q (.node ⟨4⟩)).runOn secretWorld).2 ∧
      ρ.Ends (Position.Agree Host.idle L start start' ρ)
        ((evaluate Host.idle q (.node ⟨3⟩)).runOn secretWorld).1
        ((evaluate Host.idle q (.node ⟨4⟩)).runOn secretWorld).1 := by
  intro q L start start'
  have closed : q.IsClosed L secretWorld :=
    ⟨⟨like_secretStore, ⟨.nil, rfl⟩, rfl, trivial⟩, .nil, .plain rfl⟩
  obtain ⟨tree, tree'⟩ := isTree_secretStore
  have nodes : L.nodes ⟨3⟩ ⟨4⟩ := .inr (.inr ⟨rfl, rfl⟩)
  have held : ∀ n x, secretStore.form n = .raise (.fault x) →
      x.index < secretStore.faults.size ∧ secretStore.attribute? (.fault x) copyName = none := by
    rintro ⟨_ | _ | _ | _ | _ | _⟩ x raise <;> cases raise <;> exact ⟨by decide, rfl⟩
  have made {n m : NodeRef} (h : secretNodes n m) : n.index < 5 ∧ m.index < 5 := by
    obtain ⟨rfl, rfl⟩ | ⟨rfl, rfl⟩ | ⟨rfl, rfl⟩ := h <;> decide
  have plain {n : NodeRef} {c : Position Unit}
      (reached : (Position.start q n secretWorld).Reaches Host.idle c) (here : c.node.index < 5) :
      ¬c.CopiesOwnWay Host.idle := by
    have form : c.form = secretStore.form c.node :=
      Store.form_eq_of_le (Run.Leads.le reached.leads keepsTrees_idle) here
    exact reached.not_copiesOwnWay keepsTrees_idle (fun turn => by cases turn <;> rfl)
      fun raise => held c.node _ (form ▸ raise)
  have comparable : Position.Comparable Host.idle L secretStore start start' :=
    ⟨keepsTrees_idle, respects_idle L, twins_secretStore, fun reached reached' nodes _ =>
      ⟨plain reached (made nodes).1, plain reached' (made nodes).2⟩⟩
  exact ⟨closed, tree, tree', nodes, comparable,
    runOn_evaluate_of_twins closed tree tree' nodes comparable⟩

/-! ## A fault with a way of its own -/

/-- Two nodes that raise recoverable faults, of which the first has a callable as a way of its own
to be copied. -/
def ownWayStore : Store :=
  { Store.empty with
    faults := #[
      ⟨.recoverable, .tuple [] Store.noStamp, .null, .null, [(copyName, .callable ⟨0⟩)]⟩,
      ⟨.recoverable, .tuple [] Store.noStamp, .null, .null, []⟩]
    callables := #[⟨⟨0⟩, .routine ⟨0⟩, .null, .list [] Store.noStamp, []⟩]
    nodes := #[
      ⟨.raise (.fault ⟨0⟩), .null, []⟩,
      ⟨.raise (.fault ⟨1⟩), .null, []⟩] }

/-- The world with this store. -/
def ownWayWorld : World Unit :=
  ⟨ownWayStore, .empty, #[], ()⟩

theorem isTree_ownWayStore : ownWayStore.IsTree ⟨0⟩ ∧ ownWayStore.IsTree ⟨1⟩ := by
  exact ⟨.of_trees [] (by decide) ⟨⟨0⟩, rfl, by decide, rfl⟩ rfl nofun,
    .of_trees [] (by decide) ⟨⟨1⟩, rfl, by decide, rfl⟩ rfl nofun⟩

theorem like_ownWayStore : ownWayStore.Like (.identity ownWayStore) ownWayStore := by
  refine Store.RestLike.like_identity ?_ ?_ ?_
  · refine ⟨?_, .cons ⟨rfl, .plain rfl, .null, .list _ .nil, .nil⟩ .nil, fun _ => ⟨rfl, rfl, .nil⟩,
      fun _ => ⟨rfl, .plain rfl, .plain rfl, .nil⟩,
      fun _ => ⟨.plain rfl, .plain rfl, .plain rfl, .nil⟩, fun _ => .nil, fun _ => .nil, .nil, .nil,
      rfl, rfl⟩
    rintro ⟨_ | _ | _⟩
    · exact ⟨⟨rfl, .cons (.fault ⟨rfl, by decide⟩) .nil⟩, .null, .nil⟩
    · exact ⟨⟨rfl, .cons (.fault ⟨rfl, by decide⟩) .nil⟩, .null, .nil⟩
    · exact ⟨⟨rfl, .cons (.plain rfl) .nil⟩, .null, .nil⟩
  · rintro ⟨_ | _ | _⟩ made
    · exact ⟨rfl, .tuple _ .nil, .null, .null, Forall₂.cons (And.intro rfl (.plain rfl)) .nil⟩
    · exact ⟨rfl, .tuple _ .nil, .null, .null, .nil⟩
    · exact absurd made (Nat.not_lt.2 (Nat.le_add_left 2 _))
  · intro o made
    exact absurd made (Nat.not_lt_zero _)

/-- The one evaluation invokes the callable, and the other invokes nothing. -/
theorem not_like_of_own_way :
    let L := Likeness.ofNodes fun n m => n = ⟨0⟩ ∧ m = ⟨1⟩
    Host.idle.KeepsTrees ∧ Host.idle.Respects L ∧ Request.standard.IsClosed L ownWayWorld ∧
    ownWayStore.IsTree ⟨0⟩ ∧ ownWayStore.IsTree ⟨1⟩ ∧ ownWayStore.Twins L.nodes ∧ L.nodes ⟨0⟩ ⟨1⟩ ∧
    ¬∃ ρ, World.Like L ρ ((evaluate Host.idle .standard (.node ⟨0⟩)).runOn ownWayWorld).2
      ((evaluate Host.idle .standard (.node ⟨1⟩)).runOn ownWayWorld).2 := by
  intro L
  have twins : ownWayStore.Twins L.nodes := by
    refine ⟨?_, ?_, ?_⟩
    · rintro n m ⟨rfl, rfl⟩
      exact .raise ⟨0⟩ ⟨1⟩
    · rintro n m ⟨rfl, rfl⟩
      rfl
    · rintro n m n' m' ⟨rfl, rfl⟩ ⟨rfl, rfl⟩ - -
      exact ⟨fun _ => rfl, fun _ => rfl⟩
  refine ⟨keepsTrees_idle, respects_idle L, ⟨⟨like_ownWayStore, ⟨.nil, rfl⟩, rfl, trivial⟩, .nil,
    .plain rfl⟩, isTree_ownWayStore.1, isTree_ownWayStore.2, twins, ⟨rfl, rfl⟩, ?_⟩
  rintro ⟨ρ, alike⟩
  have lengths := alike.store.rest.invocations.length_eq
  have first : ((evaluate Host.idle .standard (.node ⟨0⟩)).runOn
      ownWayWorld).2.store.invocations.toList.length = 1 := by decide +kernel
  have second : ((evaluate Host.idle .standard (.node ⟨1⟩)).runOn
      ownWayWorld).2.store.invocations.toList.length = 0 := by decide +kernel
  rw [first, second] at lengths
  cases lengths

end Fallback
