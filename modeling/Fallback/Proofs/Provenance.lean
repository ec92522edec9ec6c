import Fallback.Proofs.Construction
import Fallback.Proofs.Failure
import Mathlib.Data.List.Chain

/-!
Where a raised value comes from.

A visit that ends with a raised value either has made the outcome itself or hands on the outcome of
the operand that it visited last. Followed downwards this is a path of positions, and
`Position.Provenance` says all about it: each visit on the path ended with the very same outcome, no
form on the path catches what comes from the next, the last one raised the value, and from then on
the nodes of the path are left, the innermost one first, and nothing else happens. A fault that
awaits a place gets that of the innermost node on the path that has one.
-/
namespace Fallback

open Relation (ReflTransGen)

variable {σ : Type} {host : Host σ}

/-! ## Places -/

/-- The store in which the first of some places that tell a line was attached to what was raised,
provided that it is a fault that awaits a place. -/
def Store.attachFirst (s : Store) (e : Value) (places : List Value) : Store :=
  match e, places.find? fun v => (s.line? v).isSome with
  | .fault x, some place => if (s.fault x).awaitsPlace then s.locate x place else s
  | _, _ => s

namespace Store

/-- A fault that was given a place that tells a line awaits none any more. -/
theorem awaitsPlace_locate {s : Store} {x : FaultRef} {place : Value}
    (hx : x.index < s.faults.size) (told : (s.line? place).isSome = true) :
    ((s.locate x place).fault x).awaitsPlace = false := by
  rw [fault_locate_self place hx, Fault.awaitsPlace]
  cases place with
  | null => cases told
  | _ => simp [Value.isNull]

theorem attachFirst_of_not_awaits {s : Store} {x : FaultRef} (places : List Value)
    (h : (s.fault x).awaitsPlace = false) : s.attachFirst (.fault x) places = s := by
  unfold attachFirst
  split
  · next found he _ =>
    cases he
    rw [h]
    rfl
  · rfl

theorem attachFirst_of_le {s : Store} {x : FaultRef} (places : List Value)
    (h : s.faults.size ≤ x.index) : s.attachFirst (.fault x) places = s := by
  unfold attachFirst
  split
  · next found he _ =>
    cases he
    rw [locate_of_le _ h, ite_self]
  · rfl

/-- Leaving a node attaches its place to what was raised, if it tells a line. -/
theorem attachPlace_eq (s : Store) (n : NodeRef) {o : Outcome} {e : Value}
    (raised : o.result = .raised e) :
    s.attachPlace (.node n) o = s.attachFirst e [s.placeOf (.node n)] := by
  rw [attachPlace, raised]
  cases e with
  | fault x =>
    cases told : (s.line? (s.placeOf (.node n))).isSome <;>
      simp [attachFirst, told]
  | _ => rfl

/-- Attaching one of some places and then one of others is attaching the first of them all. -/
theorem attachFirst_append (s : Store) (e : Value) (first second : List Value) :
    (s.attachFirst e first).attachFirst e second = s.attachFirst e (first ++ second) := by
  cases e with
  | fault x =>
    cases found : first.find? fun v => (s.line? v).isSome with
    | none =>
      have nothing : s.attachFirst (.fault x) first = s := by simp [attachFirst, found]
      rw [nothing]
      simp [attachFirst, List.find?_append, found]
    | some place =>
      have told : (s.line? place).isSome = true := by simpa using List.find?_some found
      have both : s.attachFirst (.fault x) (first ++ second) = s.attachFirst (.fault x) first := by
        simp [attachFirst, List.find?_append, found]
      have attached : s.attachFirst (.fault x) first =
          if (s.fault x).awaitsPlace then s.locate x place else s := by
        simp [attachFirst, found]
      rw [both, attached]
      cases awaits : (s.fault x).awaitsPlace with
      | false => exact attachFirst_of_not_awaits second awaits
      | true =>
        simp only [if_true]
        by_cases hx : x.index < s.faults.size
        · exact attachFirst_of_not_awaits second (awaitsPlace_locate hx told)
        · -- there is no such fault, so no place can be attached to it
          have missing := Nat.le_of_not_lt hx
          rw [locate_of_le place missing, attachFirst_of_le second missing]
  | _ => rfl

theorem placeOf_attachFirst (s : Store) (e : Value) (places : List Value) (n : NodeRef) :
    (s.attachFirst e places).placeOf (.node n) = s.placeOf (.node n) := by
  unfold attachFirst
  split
  · split <;> rfl
  · rfl

theorem invocations_attachFirst (s : Store) (e : Value) (places : List Value) :
    (s.attachFirst e places).invocations = s.invocations := by
  unfold attachFirst
  split
  · split <;> rfl
  · rfl

end Store

/-! ## Leaving the nodes of a path -/

/-- Leaves the nodes of some visits in their order, each with the same outcome. -/
def Position.leaveAll (host : Host σ) (o : Outcome) : List (Position σ) → Eval σ Unit
  | [] => return ()
  | p :: above => do
    leaveNode host p.value p.kind o
    leaveAll host o above

/-- A node that could be left had its place attached and was closed; nothing else is left behind
but observations and debug records. -/
theorem leaveNode_quiet {v : Value} {kind : String} {o : Outcome} {r r' : Run σ}
    (answers : host.Answers r.frame.debug)
    (h : (leaveNode host v kind o).runOn r = (.ok (), r')) :
    r'.frame.debug = r.frame.debug ∧ r'.world.store = r.world.store.attachPlace v o ∧
      r'.world.trace.order = r.world.trace.order ∧ r'.world.host = r.world.host := by
  let noted : Run σ := ⟨r.frame, r.noted v o⟩
  have same : host.Answers noted.frame.debug := answers
  obtain ⟨log, debugs⟩ := same.runOn_debug fun f => .exit (f.depth - 1) kind o.isRaised
  rw [runOn_leaveNode, Work.runOn_bind_ok debugs] at h
  obtain ⟨pop, world⟩ := closeNode_ok h
  have order : (r.noted v o).trace.order = r.world.trace.order := by
    simp only [Run.noted]
    split
    · exact Trace.order_exit _ _ _
    · rfl
  rw [world]
  exact ⟨Frame.debug_of_pop pop, rfl, order, rfl⟩

namespace Position

/-- What the nodes that are left leave behind: the place of the first one that has a line. -/
theorem leaveAll_quiet {ps : List (Position σ)} {o : Outcome} {e : Value} {r r' : Run σ}
    (raised : o.result = .raised e) (answers : host.Answers r.frame.debug)
    (h : (leaveAll host o ps).runOn r = (.ok (), r')) :
    r'.world.store =
        r.world.store.attachFirst e (ps.map fun p => r.world.store.placeOf p.value) ∧
      r'.world.trace.order = r.world.trace.order ∧ r'.world.host = r.world.host := by
  induction ps generalizing r with
  | nil =>
    cases h
    refine ⟨?_, rfl, rfl⟩
    cases e <;> rfl
  | cons p ps ih =>
    obtain ⟨u, r₁, left, h⟩ := Work.runOn_bind_eq_ok.1 h
    obtain ⟨debug, store, order, hostState⟩ := leaveNode_quiet answers left
    obtain ⟨store', order', hostState'⟩ := ih (debug ▸ answers) h
    refine ⟨?_, order'.trans order, hostState'.trans hostState⟩
    have attached : r₁.world.store =
        r.world.store.attachFirst e [r.world.store.placeOf p.value] :=
      store.trans (Store.attachPlace_eq r.world.store p.node raised)
    have places : (ps.map fun q => r₁.world.store.placeOf q.value) =
        ps.map fun q => r.world.store.placeOf q.value := by
      rw [attached]
      exact List.map_congr_left fun q _ => Store.placeOf_attachFirst _ _ _ q.node
    rw [store', places, attached, Store.attachFirst_append, List.map_cons, List.singleton_append]

end Position

namespace Position

/-! ## The path of a raised value -/

/-- The second visit is one that the first makes, and what it raises is not caught. -/
def HandsOn (host : Host σ) (p c : Position σ) : Prop :=
  ∃ slot, p.Child host slot c ∧ ¬p.form.Catches slot

/-- The rule of the node makes an outcome that raises a value; `made` is the state right after. -/
def Produces (host : Host σ) (p : Position σ) (o : Outcome) (e : Value) (made : Run σ) : Prop :=
  ∃ os r, p.Progress host os r ∧ (p.form.next host os).runOn r = (.ok (.finish o), made) ∧
    p.form.Raises host r os e made.world

/-- How a raised value has come from the last of some visits, each made by the one before, to the
end of the first: all of them ended with the same outcome, the last one has made it, and after that
their nodes were left, the innermost one first. -/
structure Provenance (host : Host σ) (o : Outcome) (e : Value) (path : List (Position σ))
    (made r : Run σ) : Prop where
  chain : path.IsChain (HandsOn host)
  endings : ∀ c ∈ path, ∃ r', c.ending host = (.ok o, r')
  produced : ∃ last, path.getLast? = some last ∧ last.Produces host o e made
  left : (leaveAll host o path.reverse).runOn made = (.ok (), r)

variable {p c : Position σ} {os : List Outcome} {o : Outcome} {e : Value} {made r r' : Run σ}
  {path : List (Position σ)}

theorem leaveAll_append (ps : List (Position σ)) (p : Position σ) :
    leaveAll host o (ps ++ [p]) = (do leaveAll host o ps; leaveNode host p.value p.kind o) := by
  induction ps with
  | nil => simp [leaveAll]
  | cons q ps ih => simp [leaveAll, ih]

/-- A visit that raises a value is a path by itself. -/
theorem Provenance.single (produces : p.Produces host o e made)
    (ending : p.ending host = (.ok o, r'))
    (left : (leaveNode host p.value p.kind o).runOn made = (.ok (), r')) :
    Provenance host o e [p] made r' := by
  refine ⟨.singleton p, fun c hc => ?_, ⟨p, rfl, produces⟩, Work.runOn_bind_ok left _⟩
  obtain rfl := List.mem_singleton.1 hc
  exact ⟨_, ending⟩

/-- A visit that hands on what the first of a path raised goes on top of the path. -/
theorem Provenance.cons (below : Provenance host o e (c :: path) made r) (hands : HandsOn host p c)
    (ending : p.ending host = (.ok o, r'))
    (left : (leaveNode host p.value p.kind o).runOn r = (.ok (), r')) :
    Provenance host o e (p :: c :: path) made r' := by
  refine ⟨.cons_cons hands below.chain, fun d hd => ?_, ?_, ?_⟩
  · obtain rfl | hd := List.mem_cons.1 hd
    · exact ⟨_, ending⟩
    · exact below.endings d hd
  · obtain ⟨last, isLast, produces⟩ := below.produced
    exact ⟨last, by rw [List.getLast?_cons_cons, isLast], produces⟩
  · rw [List.reverse_cons, leaveAll_append, Work.runOn_bind_ok below.left]
    exact left

/-- A visit that ends with a raised value has a path down to where the value was raised. -/
theorem exists_provenance (hk : host.KeepsTrees) (sound : p.IsSound)
    (ending : p.ending host = (.ok o, r')) (raised : o.result = .raised e) :
    ∃ below made, Provenance host o e (p :: below) made r' ∧
      made.frame.debug = p.run.frame.debug := by
  induction hb : p.budget using Nat.strongRecOn generalizing p r' with
  | ind b ih =>
    obtain ⟨r, ⟨os, r₀, progress, decided⟩, left⟩ := (ending_eq_ok_iff sound hk).1 ending
    obtain ⟨push, le⟩ := progress.push_eq sound hk
    obtain decided | decided := decided
    · -- the outcome of the operand visited last is handed on
      obtain ⟨last, uncaught, rfl⟩ := Form.handsOn_of_keep decided raised
      cases progress with
      | entered budget enter => cases last
      | @visited before _ slot _ _ _ _ progress visits visit =>
        rw [List.getLast?_concat] at last
        cases last
        obtain ⟨c, rfl, child, csound, rfl, cending⟩ := progress.child sound hk visits
        have below : c.budget < b := by
          have := child.budget
          omega
        rw [visit] at cending
        obtain ⟨path, made, provenance, debug⟩ := ih c.budget below csound cending rfl
        refine ⟨c :: path, made, provenance.cons ⟨slot, child, ?_⟩ ending left, ?_⟩
        · rintro ⟨rfl, caught⟩
          obtain rfl := Form.eq_nil_of_visit_zero visits
          exact uncaught rfl ⟨rfl, caught⟩
        · rw [debug, child.debug_eq sound hk]
    · -- the rule has made the outcome itself
      have fit := sound.tree.whole.fit.mono le
      have raises := Form.raises_of_next fit progress.known decided raised
      have frame := Run.Change.frame_eq ((p.form.makes_next os).of_run decided)
      refine ⟨[], r, .single ⟨os, r₀, progress, decided, raises⟩ ending left, ?_⟩
      rw [frame, (Frame.settings_of_push push).2.1]

end Position

/-- An evaluation that ends with a raised value has a path of visits from the root down to the one
that has made the value, none of which catches it; from then on the nodes of the path are left and
nothing else is done. If the debug switch can tell its truth, then no node is entered any more, no
callable is invoked, the host is left as it was, and the value gets the place of the innermost node
on the path that has one, unless it awaits none. -/
theorem exists_provenance_of_raised (hk : host.KeepsTrees) {q : Request} {root : NodeRef}
    {w w' : World σ} (tree : w.store.IsTree root) {o : Outcome} {e : Value}
    (h : (evaluate host q (.node root)).runOn w = (.ok o, w')) (raised : o.result = .raised e) :
    ∃ below made r, r.world = w' ∧
      Position.Provenance host o e (.start q root w :: below) made r ∧
      (host.Answers q.options.debugTrace →
        w'.trace.order = made.world.trace.order ∧
        w'.store.invocations = made.world.store.invocations ∧ w'.host = made.world.host ∧
        w'.store = made.world.store.attachFirst e
          ((Position.start q root w :: below).reverse.map fun c =>
            made.world.store.placeOf c.value)) := by
  have sound := Position.isSound_start q tree
  rw [Position.runOn_evaluate] at h
  rcases ending : (Position.start q root w).ending host with ⟨result, r⟩
  rw [ending] at h
  cases h
  obtain ⟨below, made, provenance, debug⟩ := Position.exists_provenance hk sound ending raised
  refine ⟨below, made, r, rfl, provenance, fun answers => ?_⟩
  have madeAnswers : host.Answers made.frame.debug := debug ▸ answers
  obtain ⟨store, order, hostState⟩ := Position.leaveAll_quiet raised madeAnswers provenance.left
  refine ⟨order, ?_, hostState, store⟩
  rw [store, Store.invocations_attachFirst]

/-- An operator that has a place, over a node that raises a fault and has none. -/
def raisingTree : Attempt NodeRef :=
  Attempt.doubled (.raise (.str "lost" Store.noStamp)) .onNull (.position ⟨0⟩)

/-- A store with the place. -/
def placeStore : Store :=
  { Store.empty with positions := #[[(lineName, .int 7 Store.noStamp)]] }

/-- The world in which the tree was made. -/
def raisingWorld : World Unit :=
  ⟨(raisingTree.runOn placeStore).2, .empty, #[], ()⟩

/-- The fault that the operand raises gets the place of the operator. -/
theorem exists_provenance_of_raising_operand :
    raisingWorld.store.IsTree ⟨1⟩ ∧
    ∃ o w', (evaluate Host.idle Request.standard (.node ⟨1⟩)).runOn raisingWorld = (.ok o, w') ∧
      o.result = .raised (.fault ⟨1⟩) ∧
      (w'.store.fault ⟨1⟩).place = .position ⟨0⟩ ∧
      ∃ below made r, r.world = w' ∧
        Position.Provenance Host.idle o (.fault ⟨1⟩)
          (.start .standard ⟨1⟩ raisingWorld :: below) made r ∧
        (Host.idle.Answers Request.standard.options.debugTrace →
          w'.trace.order = made.world.trace.order ∧
          w'.store.invocations = made.world.store.invocations ∧ w'.host = made.world.host ∧
          w'.store = made.world.store.attachFirst (.fault ⟨1⟩)
            ((Position.start .standard ⟨1⟩ raisingWorld :: below).reverse.map fun c =>
              made.world.store.placeOf c.value)) := by
  have made : raisingTree.runOn placeStore = (.ok ⟨1⟩, raisingWorld.store) := rfl
  have tree : raisingWorld.store.IsTree ⟨1⟩ :=
    (Attempt.isBuilt_of_doubled (Store.knows_all rfl) (by decide) made).tree
  exact ⟨tree, _, _, rfl, rfl, rfl, exists_provenance_of_raised keepsTrees_idle tree rfl rfl⟩

end Fallback
