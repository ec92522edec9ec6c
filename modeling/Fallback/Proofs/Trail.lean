import Fallback.Proofs.Depth

/-!
What is open is the way down to what is evaluated.

The evaluator keeps the open values in its frame, in a stack with a set beside it, and opens and
closes them as it goes. `evalAlong` opens and closes nothing: it is handed the way down as a
`Trail`, on which no value stands twice and which is no longer than the limit, hands a longer one to
the operands, and at every point the frame is the one that its trail says. What it does with a value
that stands on the trail already, and with one that is no node, is left to `Branches`.

An evaluation is the same as one along trails, for any host and any root, a spoilt one too. In a
tree as the constructors make its nodes the trail is a path of operands, `Store.IsPath`; so it does
not matter there what would be done with another value than a node, and in a built tree not even
what would be done with a value that stands on the trail, because neither comes about. A host is
handed the world and no frame, so an evaluation that it starts has a trail of its own, and what is
said here of every host is said of both.
-/
namespace Fallback

open Relation (ReflTransGen TransGen)

variable {σ α β : Type} {host : Host σ}

/-! ## Trails -/

/-- The way down to a value, the innermost value first. No value stands on it twice, and it is no
longer than a limit. -/
structure Trail (limit : Nat) where
  values : List Value
  nodup : (values.map Value.identity).Nodup
  length_le : values.length ≤ limit

namespace Trail

variable {limit : Nat}

/-- The way down to a root. -/
def start (limit : Nat) : Trail limit :=
  ⟨[], List.nodup_nil, Nat.zero_le _⟩

/-- What the values of the trail are as things. -/
def identities (t : Trail limit) : List Identity :=
  t.values.map Value.identity

/-- The number of values on the trail. -/
def length (t : Trail limit) : Nat :=
  t.values.length

/-- The trail with a value below it. -/
def extend (t : Trail limit) (v : Value) (new : v.identity ∉ t.identities)
    (room : t.length < limit) : Trail limit :=
  ⟨v :: t.values, List.nodup_cons.2 ⟨new, t.nodup⟩, room⟩

end Trail

namespace Frame

/-- The frame in which the values of a trail are open. -/
def along (f : Frame) (t : Trail f.maxDepth) : Frame :=
  { f with stack := t.identities, active := t.identities }

variable {f g : Frame} {t : Trail f.maxDepth} {v : Value}

theorem depth_along (f : Frame) (t : Trail f.maxDepth) : (f.along t).depth = t.length :=
  List.length_map _

/-- A value is refused as a circle exactly if it stands on the trail. -/
theorem push_along_eq_cyclic_iff :
    (f.along t).push v = .error .cyclic ↔ v.identity ∈ t.identities := by
  obtain ⟨isOpen, push⟩ | ⟨closed, full, push⟩ | ⟨closed, room, push⟩ := (f.along t).push_cases v
  · exact iff_of_true push isOpen
  · exact iff_of_false (by simp [push]) closed
  · exact iff_of_false (by simp [push]) closed

theorem push_along_of_full (new : v.identity ∉ t.identities) (full : ¬t.length < f.maxDepth) :
    (f.along t).push v = .error (.tooDeep f.maxDepth) := by
  have reached : (f.along t).maxDepth ≤ (f.along t).depth := by
    rw [depth_along]
    exact Nat.le_of_not_lt full
  exact push_eq_tooDeep_iff.2 ⟨new, reached⟩

/-- Any other value is opened as long as there is room, and then it stands on the trail. -/
theorem push_along_eq_ok_iff :
    (f.along t).push v = .ok g ↔
      ∃ (new : v.identity ∉ t.identities) (room : t.length < f.maxDepth),
        g = f.along (t.extend v new room) := by
  have depth := depth_along f t
  obtain ⟨isOpen, push⟩ | ⟨closed, full, push⟩ | ⟨closed, room, push⟩ := (f.along t).push_cases v
  · exact iff_of_false (by simp [push]) fun ⟨new, _⟩ => new isOpen
  · refine iff_of_false (by simp [push]) fun ⟨_, less, _⟩ => ?_
    have reached : f.maxDepth ≤ (f.along t).depth := full
    omega
  · have less : (f.along t).depth < f.maxDepth := room
    rw [push]
    exact ⟨fun same => ⟨closed, depth ▸ less, (Except.ok.inj same).symm⟩,
      fun ⟨_, _, same⟩ => same ▸ rfl⟩

end Frame

/-! ## Evaluating along a trail -/

/-- What is done with a value that stands on the trail already, and with one that is no node. -/
structure Branches (σ : Type) where
  cyclic : Value → Eval σ Outcome
  stray : Value → Eval σ Outcome

/-- Breaks off with the report of a broken tree, at the place of a value. -/
def reportAt (v : Value) (message : Store → String) : Eval σ Outcome := do
  let s ← Eval.store
  Eval.ofAttempt (Attempt.malformed (s.placeOf v) (message s))

/-- Both are reported. -/
def Branches.standard : Branches σ :=
  ⟨fun v => reportAt v fun _ => "cyclic expression tree",
    fun v => reportAt v fun s => "Unknown node: " ++ s.typeName v⟩

/-- Goes on in a frame. -/
def Eval.goInto (f : Frame) : Eval σ Unit :=
  modify fun r => { r with frame := f }

/-- The observations that go with entering a value. Gives the name of its kind. -/
def noteEntry (host : Host σ) (v : Value) : Eval σ String := do
  let kind := (← Eval.store).typeName v
  debug host fun f => .enter (f.depth - 1) kind
  Eval.observe fun t => t.enter v
  return kind

/-- What is done with the outcome of a value: its place is attached, and the observations are made
that go with leaving it. -/
def noteExit (host : Host σ) (v : Value) (kind : String) (o : Outcome) : Eval σ Unit := do
  Eval.modifyStore fun s => s.attachPlace v o
  Eval.observe fun t => t.exit v o.toValue
  debug host fun f => .exit (f.depth - 1) kind o.isRaised

/-- Applies the rule of a node, for an evaluator of its operands. -/
def applyRule (host : Host σ) (b : Branches σ) (eval : Value → Eval σ Outcome) :
    Value → Eval σ Outcome
  | .node n => do evalForm host eval ((← Eval.store).form n)
  | v => b.stray v

/-- Evaluates a value at the end of a trail. -/
def evalAlong (host : Host σ) (b : Branches σ) (f : Frame) (t : Trail f.maxDepth) (v : Value) :
    Eval σ Outcome :=
  if met : v.identity ∈ t.identities then b.cyclic v
  else if room : t.length < f.maxDepth then do
    Eval.goInto (f.along (t.extend v met room))
    let kind ← noteEntry host v
    let outcome ← applyRule host b (fun u => evalAlong host b f (t.extend v met room) u) v
    noteExit host v kind outcome
    Eval.goInto (f.along t)
    return outcome
  else reportAt v fun _ => (Frame.Refusal.tooDeep f.maxDepth).message
termination_by f.maxDepth - t.length
decreasing_by
  have longer : (t.extend v met room).length = t.length + 1 := rfl
  omega

/-- Evaluates a tree along trails that start at its root; only a node is a tree. -/
def evaluateAlong (host : Host σ) (b : Branches σ) (q : Request) (root : Value) :
    Act σ Outcome := do
  if root.isNode then (evalAlong host b q.frame (.start _) root).inFrame q.frame
  else
    Act.ofAttempt
      (Attempt.malformed .null
        ("Expected an expression node, got " ++ (← Act.store).typeName root))

/-! ## Work that does the same -/

/-- From states of the first kind the works do the same; and if they end well, the state is of the
second kind. -/
def Work.AgreesFrom {S : Type} (P Q : S → Prop) (x y : Work S α) : Prop :=
  ∀ s, P s → x.runOn s = y.runOn s ∧ ∀ a t, x.runOn s = (.ok a, t) → Q t

namespace Work

variable {S : Type} {P Q R : S → Prop} {x y : Work S α}

theorem agreesFrom_pure (a : α) : AgreesFrom P P (pure a) (pure a) := by
  intro s hs
  refine ⟨rfl, fun b t ends => ?_⟩
  cases ends
  exact hs

theorem AgreesFrom.bind {k l : α → Work S β} (h : AgreesFrom P Q x y)
    (hk : ∀ a, AgreesFrom Q R (k a) (l a)) : AgreesFrom P R (x >>= k) (y >>= l) := by
  intro s hs
  obtain ⟨same, ends⟩ := h s hs
  rw [runOn_bind, runOn_bind, ← same]
  rcases run : x.runOn s with ⟨e | a, t⟩
  · exact ⟨rfl, nofun⟩
  · exact hk a t (ends a t run)

/-- What agrees with some work agrees with itself. -/
theorem AgreesFrom.self (h : AgreesFrom P Q x y) : AgreesFrom P Q x x :=
  fun s hs => ⟨rfl, (h s hs).2⟩

/-- What is known of a state may be used to compare the works that start there. -/
theorem AgreesFrom.of_state (h : ∀ s, P s → AgreesFrom P Q x y) : AgreesFrom P Q x y :=
  fun s hs => h s hs s hs

/-- Work agrees with itself, and states stay of a kind that is kept by what the work makes. -/
theorem Makes.agreesFrom {step : S → S → Prop} (hx : x.Makes step)
    (kept : ∀ s t, P s → step s t → P t) : AgreesFrom P P x x := by
  intro s hs
  refine ⟨rfl, fun a t run => ?_⟩
  have made := hx.of_run run
  clear run
  induction made with
  | refl => exact hs
  | tail _ step ih => exact kept _ _ ih step

end Work

/-! ## What happens while a value is open -/

/-- One step of an evaluation that opens and closes nothing. -/
structure Run.Within (host : Host σ) (r r' : Run σ) : Prop where
  step : r.Step host r'
  frame_eq : r'.frame = r.frame

section Observations

open Work

theorem Run.Change.within {r r' : Run σ} (h : r.Change host r') : r.Within host r' :=
  ⟨.quiet (.change h), frame_eq (.single h)⟩

theorem within_debug (record : Frame → LogRecord) :
    (debug host record).Makes (Run.Within host) :=
  (makes_debug record).mono fun _ _ h => h.within

theorem within_observe {f : Trace → Trace}
    (h : ∀ r : Run σ, r.Quiet host
      { r with world := { r.world with trace := f r.world.trace } }) :
    (Eval.observe f : Eval σ Unit).Makes (Run.Within host) := by
  intro r
  simp only [Eval.observe, runOn_modify]
  split
  · exact .single ⟨.quiet (h r), rfl⟩
  · exact .refl

theorem within_noteEntry (v : Value) : (noteEntry host v).Makes (Run.Within host) :=
  (makes_get.bind fun _ => makes_pure _).bind fun _ => (within_debug _).bind fun _ =>
    (within_observe fun _ => .enter v).bind fun _ => makes_pure _

theorem within_noteExit (v : Value) (kind : String) (o : Outcome) :
    (noteExit host v kind o).Makes (Run.Within host) :=
  (makes_modify fun _ => ⟨.place v o, rfl⟩).bind fun _ =>
    (within_observe fun _ => .exit v _).bind fun _ => within_debug _

theorem leaveNode_eq (v : Value) (kind : String) (o : Outcome) :
    leaveNode host v kind o = (do noteExit host v kind o; closeNode v) := by
  simp only [leaveNode, noteExit, bind_assoc]

end Observations

/-! ## The rules -/

/-- The rule of a form may ask for the evaluation of a value, if a store holds the items of what the
form has for arguments. -/
def Form.Asks (s : Store) (v : Value) : Form → Prop
  | .call callee args => v = callee ∨ v ∈ (s.items? args).getD []
  | .fallback _ lhs rhs => v = lhs ∨ v = rhs
  | .ternary condition thenBranch elseBranch =>
    v = condition ∨ v = thenBranch ∨ v = elseBranch
  | .literal _ | .reference _ | .raise _ => False

/-- What the constructors make asks for nothing but its operands. -/
theorem Form.IsFit.mem_operands {s s' : Store} {f : Form} {v : Value} (fit : f.IsFit s)
    (h : f.Asks s' v) : v ∈ f.operands := by
  cases f with
  | call callee args =>
    obtain ⟨items, stamp, rfl⟩ := fit
    exact List.mem_cons.2 h
  | fallback op lhs rhs => simpa [operands, Asks] using h
  | ternary condition thenBranch elseBranch => simpa [operands, Asks] using h
  | literal | reference | raise => exact absurd h id

section Rules

open Work

variable {P : Run σ → Prop} {eval eval' : Value → Eval σ Outcome}

theorem agreesFrom_evalArgs {items : List Value}
    (each : ∀ v ∈ items, AgreesFrom P P (eval v) (eval' v)) :
    AgreesFrom P P (evalArgs eval items) (evalArgs eval' items) := by
  induction items with
  | nil => exact agreesFrom_pure _
  | cons v items ih =>
    obtain ⟨first, rest⟩ := List.forall_mem_cons.1 each
    refine first.bind fun o => ?_
    split
    · exact agreesFrom_pure _
    · refine (ih rest).bind fun walked => ?_
      cases walked with
      | error o => exact agreesFrom_pure _
      | ok vs => exact agreesFrom_pure _

/-- What is added to the arguments is looked for in the store as it is then. -/
theorem agreesFrom_evalAdded {args : Value} (known : Nat)
    (each : ∀ r, P r → ∀ v ∈ (r.world.store.items? args).getD [],
      AgreesFrom P P (eval v) (eval' v)) :
    AgreesFrom P P (evalAdded eval args known) (evalAdded eval' args known) := by
  intro r hr
  have walk : ∀ added : List Value, (∀ v ∈ added, AgreesFrom P P (eval v) (eval' v)) →
      AgreesFrom P P (added.forM fun v => do let _ ← eval v)
        (added.forM fun v => do let _ ← eval' v) := by
    intro added each
    induction added with
    | nil => exact agreesFrom_pure _
    | cons v added ih =>
      obtain ⟨first, rest⟩ := List.forall_mem_cons.1 each
      exact (first.bind fun _ => agreesFrom_pure _).bind fun _ => ih rest
  rw [evalAdded, evalAdded, runOn_bind_ok (Eval.runOn_store r), runOn_bind_ok (Eval.runOn_store r)]
  exact walk _ (fun v hv => each r hr v (List.mem_of_mem_drop hv)) r hr

theorem Eval.runOn_items (args : Value) (r : Run σ) :
    (Eval.ofAttempt (Attempt.items args)).runOn r =
      match r.world.store.items? args with
      | some vs => (.ok vs, r)
      | none => (Eval.ofAttempt (Attempt.misuse
          (.notIterable (r.world.store.hostTypeName args)))).runOn r := by
  simp only [Eval.ofAttempt, Eval.runOn_ofAct, Act.runOn_ofAttempt, Attempt.items,
    Attempt.runOn_ask, Store.items]
  cases r.world.store.items? args <;> rfl

/-- Where a value has items, the works that go on with them have to agree. -/
theorem agreesFrom_items {Q : Run σ → Prop} {args : Value} {k l : List Value → Eval σ β}
    (h : ∀ r, P r → ∀ vs, r.world.store.items? args = some vs → AgreesFrom P Q (k vs) (l vs)) :
    AgreesFrom P Q (Eval.ofAttempt (Attempt.items args) >>= k)
      (Eval.ofAttempt (Attempt.items args) >>= l) := by
  intro r hr
  rw [runOn_bind, runOn_bind, Eval.runOn_items]
  rcases found : r.world.store.items? args with _ | vs
  · exact ⟨rfl, nofun⟩
  · exact h r hr vs found r hr

variable (kept : ∀ r r', P r → r.Within host r' → P r')
include kept

theorem agreesFrom_act {x : Act σ α} (hx : x.Composed host) :
    AgreesFrom P P (Eval.ofAct x) (Eval.ofAct x) :=
  hx.makes.eval.agreesFrom fun r r' hr h => kept r r' hr h.within

theorem agreesFrom_evalCall {callee args : Value}
    (first : AgreesFrom P P (eval callee) (eval' callee))
    (each : ∀ r, P r → ∀ v ∈ (r.world.store.items? args).getD [],
      AgreesFrom P P (eval v) (eval' v)) :
    AgreesFrom P P (evalCall host eval callee args) (evalCall host eval' callee args) := by
  refine first.bind fun o => ?_
  split
  · exact agreesFrom_pure _
  · refine agreesFrom_items fun r hr vs found => ?_
    refine (agreesFrom_evalArgs fun v hv => each r hr v (by rwa [found])).bind fun walked => ?_
    cases walked with
    | error o => exact agreesFrom_pure _
    | ok ws =>
      exact (agreesFrom_evalAdded _ each).bind fun _ =>
        agreesFrom_act kept (composed_callValue _ _)

theorem agreesFrom_onTruth (v : Value) {x y x' y' : Eval σ Outcome} (hx : AgreesFrom P P x x')
    (hy : AgreesFrom P P y y') : AgreesFrom P P
      (do
        match ← Eval.ofAct (truthOrFailure host v) with
        | .error e => Eval.ofAct (Act.raised (.fault e))
        | .ok b => if b then x else y)
      (do
        match ← Eval.ofAct (truthOrFailure host v) with
        | .error e => Eval.ofAct (Act.raised (.fault e))
        | .ok b => if b then x' else y') := by
  refine (agreesFrom_act kept (composed_truthOrFailure v)).bind fun tested => ?_
  cases tested with
  | error e => exact agreesFrom_act kept (Act.composed_raised _)
  | ok b =>
    cases b with
    | true => exact hx
    | false => exact hy

/-- The rules agree if the evaluators of what they ask for do. -/
theorem agreesFrom_evalForm {f : Form}
    (each : ∀ r v, P r → f.Asks r.world.store v → AgreesFrom P P (eval v) (eval' v)) :
    AgreesFrom P P (evalForm host eval f) (evalForm host eval' f) := by
  refine .of_state fun r hr => ?_
  cases f with
  | literal v => exact agreesFrom_act kept (Act.composed_success v)
  | reference name =>
    exact (Eval.makes_frame.bind fun f => (composed_lookup f.vars name).makes.eval).agreesFrom
      fun r r' hr h => kept r r' hr h.within
  | call callee args =>
    exact agreesFrom_evalCall kept (each r _ hr (.inl rfl))
      fun r hr v hv => each r v hr (.inr hv)
  | fallback op lhs rhs =>
    have left := each r lhs hr (.inl rfl)
    have right := each r rhs hr (.inr rfl)
    refine left.bind fun o => ?_
    split
    · exact agreesFrom_pure _
    · exact ((within_debug _).agreesFrom kept).bind fun _ => right
    · exact agreesFrom_pure _
    · split
      · exact right
      · exact agreesFrom_pure _
    · exact agreesFrom_onTruth kept _ (agreesFrom_pure _) right
  | ternary condition thenBranch elseBranch =>
    refine (each r condition hr (.inl rfl)).bind fun o => ?_
    split
    · exact agreesFrom_pure _
    · exact agreesFrom_onTruth kept _ (each r thenBranch hr (.inr (.inl rfl)))
        (each r elseBranch hr (.inr (.inr rfl)))
  | raise exception => exact agreesFrom_act kept (composed_evalRaise exception)

end Rules

/-! ## Nodes -/

/-- The evaluation has a frame, and of the store something holds. -/
structure Run.IsIn (f : Frame) (holds : Store → Prop) (r : Run σ) : Prop where
  frame_eq : r.frame = f
  holds : holds r.world.store

/-- Whatever a step of an evaluation does, it keeps what holds of the store. -/
def Host.Upholds (host : Host σ) (holds : Store → Prop) : Prop :=
  ∀ r r' : Run σ, r.Step host r' → holds r.world.store → holds r'.world.store

section Nodes

open Work

variable {holds : Store → Prop} {f g : Frame} {v : Value}

theorem Run.IsIn.within (upheld : host.Upholds holds) {r r' : Run σ} (h : r.IsIn f holds)
    (step : r.Within host r') : r'.IsIn f holds :=
  ⟨step.frame_eq.trans h.frame_eq, upheld r r' step.step h.holds⟩

/-- A value that the frame takes is opened, as if the frame with it were put in place. -/
theorem agreesFrom_openNode (push : f.push v = .ok g) :
    AgreesFrom (Run.IsIn f holds) (Run.IsIn g holds) (openNode v : Eval σ Unit)
      (Eval.goInto g) := by
  rintro ⟨_, w⟩ ⟨rfl, held⟩
  rw [runOn_openNode_of_push push]
  refine ⟨rfl, fun a t ends => ?_⟩
  cases ends
  exact ⟨rfl, held⟩

/-- A value that was opened last is closed, as if the frame without it were put back. -/
theorem agreesFrom_closeNode (push : f.push v = .ok g) :
    AgreesFrom (Run.IsIn g holds) (Run.IsIn f holds) (closeNode v : Eval σ Unit)
      (Eval.goInto f) := by
  rintro ⟨_, w⟩ ⟨rfl, held⟩
  rw [runOn_closeNode_of_pop (Frame.pop_of_push push)]
  refine ⟨rfl, fun a t ends => ?_⟩
  cases ends
  exact ⟨rfl, held⟩

theorem agreesFrom_reportAt {P Q : Run σ → Prop} (v : Value) (message : Store → String) :
    AgreesFrom P Q (reportAt v message) (reportAt v message) :=
  fun _ _ => ⟨rfl, nofun⟩

/-- A value that the frame refuses is reported. -/
theorem agreesFrom_refused {P : Run σ → Prop} {refusal : Frame.Refusal}
    (push : f.push v = .error refusal) (budget : Nat) :
    AgreesFrom (Run.IsIn f holds) P (evalNode host budget v)
      (reportAt v fun _ => refusal.message) := by
  rintro r ⟨rfl, -⟩
  have refused := runOn_openNode_of_refused push
  have reported : (evalNode host budget v).runOn r =
      (reportAt v fun _ => refusal.message : Eval σ Outcome).runOn r := by
    cases budget with
    | zero => exact runOn_bind_error refused _
    | succ budget => exact runOn_bind_error (runOn_bind_error refused _) _
  rw [reported]
  exact ⟨rfl, nofun⟩

/-- A value that the frame takes is evaluated by what agrees with its rule, in the frame in which it
is open; and then the frame is put back. -/
theorem agreesFrom_node (upheld : host.Upholds holds) (push : f.push v = .ok g) {budget : Nat}
    {body : Eval σ Outcome}
    (rule : AgreesFrom (Run.IsIn g holds) (Run.IsIn g holds)
      (evalOpen host (evalNode host budget) v) body) :
    AgreesFrom (Run.IsIn f holds) (Run.IsIn f holds) (evalNode host (budget + 1) v) (do
      Eval.goInto g
      let kind ← noteEntry host v
      let outcome ← body
      noteExit host v kind outcome
      Eval.goInto f
      return outcome) := by
  have kept : ∀ r r' : Run σ, r.IsIn g holds → r.Within host r' → r'.IsIn g holds :=
    fun _ _ h step => h.within upheld step
  have entering : enterNode host v = (do openNode v; noteEntry host v) := rfl
  rw [evalNode, entering, bind_assoc]
  refine (agreesFrom_openNode push).bind fun _ =>
    ((within_noteEntry v).agreesFrom kept).bind fun kind => rule.bind fun o => ?_
  rw [leaveNode_eq, bind_assoc]
  exact ((within_noteExit v kind o).agreesFrom kept).bind fun _ =>
    (agreesFrom_closeNode push).bind fun _ => agreesFrom_pure o

/-- Applying the rule of an open value agrees with whatever does so for the values that the rule may
ask for, and does the same with a value that is no node. -/
theorem agreesFrom_evalOpen (upheld : host.Upholds holds) {eval eval' : Value → Eval σ Outcome}
    {b : Branches σ}
    (asked : ∀ n, v = .node n → ∀ s s' u, holds s → holds s' → (s.form n).Asks s' u →
      AgreesFrom (Run.IsIn f holds) (Run.IsIn f holds) (eval u) (eval' u))
    (other : v.isNode = false → b.stray v = Branches.standard.stray v) :
    AgreesFrom (Run.IsIn f holds) (Run.IsIn f holds) (evalOpen host eval v)
      (applyRule host b eval' v) := by
  have kept : ∀ r r' : Run σ, r.IsIn f holds → r.Within host r' → r'.IsIn f holds :=
    fun _ _ h step => h.within upheld step
  cases v with
  | node n =>
    intro r hr
    rw [evalOpen, applyRule, runOn_bind_ok (Eval.runOn_store r),
      runOn_bind_ok (Eval.runOn_store r)]
    exact agreesFrom_evalForm kept
      (fun r' u hr' asks => asked n rfl _ _ u hr.holds hr'.holds asks) r hr
  | _ =>
    rw [applyRule, other rfl]
    · exact agreesFrom_reportAt _ _
    · exact nofun

/-- An evaluation that ends well leaves the frame as it found it. -/
theorem frame_eq_of_evalNode {budget : Nat} {r r' : Run σ} {o : Outcome}
    (h : (evalNode host budget v).runOn r = (.ok o, r')) : r'.frame = r.frame := by
  have upheld : host.Upholds fun _ => True := fun _ _ _ _ => trivial
  have keeps : ∀ (budget : Nat) (f : Frame) (v : Value),
      AgreesFrom (Run.IsIn f fun _ => True) (Run.IsIn f fun _ => True) (evalNode host budget v)
        (evalNode host budget v) := by
    intro budget
    induction budget with
    | zero =>
      intro f v r _
      refine ⟨rfl, fun o r' ends => ?_⟩
      obtain ⟨u, r₁, -, broken⟩ := runOn_bind_eq_ok.1 ends
      cases broken
    | succ budget ih =>
      intro f v
      rcases push : f.push v with refusal | g
      · exact (agreesFrom_refused push _).self
      · exact (agreesFrom_node upheld push (agreesFrom_evalOpen upheld
          (fun _ _ _ _ u _ _ _ => ih g u) fun _ => rfl)).self
  exact ((keeps budget r.frame v r ⟨rfl, trivial⟩).2 o r' h).frame_eq

end Nodes

/-! ## Evaluations -/

/-- An evaluation along trails, where something holds of the store, comes only to the values that
fit the ends of its trails; and to any of these the branches do what the standard ones do. -/
structure Branches.Suits (b : Branches σ) (host : Host σ) (holds : Store → Prop)
    (fits : List Value → Value → Prop) : Prop where
  upheld : host.Upholds holds
  asked {s s' : Store} {vs : List Value} {n : NodeRef} {v : Value} (hs : holds s) (hs' : holds s')
    (h : fits vs (.node n)) (asks : (s.form n).Asks s' v) : fits (.node n :: vs) v
  cyclic {vs : List Value} {v : Value} (h : fits vs v)
    (met : v.identity ∈ vs.map Value.identity) : b.cyclic v = Branches.standard.cyclic v
  stray {vs : List Value} {v : Value} (h : fits vs v) (other : v.isNode = false) :
    b.stray v = Branches.standard.stray v

section Evaluations

open Work

variable {b : Branches σ} {holds : Store → Prop} {fits : List Value → Value → Prop}

/-- A value is evaluated in the frame that a trail says as it is at the end of the trail. The
induction is on the budget, which makes up the limit together with the trail. -/
theorem evalNode_agreesFrom (suits : b.Suits host holds fits) {f : Frame} {budget : Nat}
    {t : Trail f.maxDepth} {v : Value} (fit : fits t.values v)
    (sum : t.length + budget = f.maxDepth) :
    AgreesFrom (Run.IsIn (f.along t) holds) (Run.IsIn (f.along t) holds) (evalNode host budget v)
      (evalAlong host b f t v) := by
  induction budget generalizing t v with
  | zero =>
    by_cases met : v.identity ∈ t.identities
    · rw [evalAlong, dif_pos met, suits.cyclic fit met]
      exact agreesFrom_refused (Frame.push_along_eq_cyclic_iff.2 met) 0
    · have full : ¬t.length < f.maxDepth := by omega
      rw [evalAlong, dif_neg met, dif_neg full]
      exact agreesFrom_refused (Frame.push_along_of_full met full) 0
  | succ budget ih =>
    by_cases met : v.identity ∈ t.identities
    · rw [evalAlong, dif_pos met, suits.cyclic fit met]
      exact agreesFrom_refused (Frame.push_along_eq_cyclic_iff.2 met) _
    · have room : t.length < f.maxDepth := by omega
      rw [evalAlong, dif_neg met, dif_pos room]
      refine agreesFrom_node suits.upheld (Frame.push_along_eq_ok_iff.2 ⟨met, room, rfl⟩)
        (agreesFrom_evalOpen suits.upheld ?_ (suits.stray fit))
      rintro n rfl s s' u hs hs' asks
      have longer : (t.extend (.node n) met room).length = t.length + 1 := rfl
      exact ih (suits.asked hs hs' fit asks) (by omega)

/-- An evaluation of a root that fits is one along trails. -/
theorem runOn_evaluate_of_suits (suits : b.Suits host holds fits) (q : Request) {root : Value}
    (fit : fits [] root) {w : World σ} (held : holds w.store) :
    (evaluate host q root).runOn w = (evaluateAlong host b q root).runOn w := by
  unfold evaluate evaluateAlong
  split
  · have agrees := evalNode_agreesFrom suits (t := Trail.start q.frame.maxDepth) fit
      (Nat.zero_add q.frame.maxDepth)
    rw [Eval.runOn_inFrame, Eval.runOn_inFrame, (agrees ⟨q.frame, w⟩ ⟨rfl, held⟩).1]
  · rfl

/-- With the standard branches nothing has to hold of the store, and every value fits. -/
theorem suits_standard :
    Branches.standard.Suits host (fun _ => True) (fun _ _ => True) :=
  ⟨fun _ _ _ _ => trivial, fun _ _ _ _ => trivial, fun _ _ => rfl, fun _ _ => rfl⟩

end Evaluations

/-! ## Trees -/

/-- The nodes on the way from a root down to a node, the innermost first: each of them is an operand
of the one before it. -/
inductive Store.IsPath (s : Store) (root : NodeRef) : List NodeRef → NodeRef → Prop
  | root : s.IsPath root [] root
  | operand {ns : List NodeRef} {n m : NodeRef} (above : s.IsPath root ns n)
    (h : s.Operand n m) : s.IsPath root (n :: ns) m

section Trees

variable {s : Store} {root n : NodeRef} {ns : List NodeRef} {b : Branches σ}

theorem Store.IsPath.reached (h : s.IsPath root ns n) : ReflTransGen s.Operand root n := by
  induction h with
  | root => exact .refl
  | operand _ step ih => exact ih.tail step

/-- The nodes of a path have its end below them. -/
theorem Store.IsPath.transGen (h : s.IsPath root ns n) :
    ∀ m ∈ ns, TransGen s.Operand m n := by
  induction h with
  | root => exact nofun
  | operand _ step ih =>
    exact List.forall_mem_cons.2 ⟨.single step, fun m hm => (ih m hm).tail step⟩

/-- On a path down from a built tree no node stands twice. -/
theorem Store.IsPath.end_not_mem (h : s.IsPath root ns n) (built : s.IsBuilt root) : n ∉ ns :=
  fun again => (built.of_reached h.reached).acyclic (h.transGen n again)

/-- In a tree nothing but nodes is evaluated, along paths; so it does not matter what is done with
another value, nor, if the tree is built, with one that stands on the trail. -/
theorem suits_of_isTree (hk : host.KeepsTrees) (tree : s.IsTree root)
    (low : b.cyclic = Branches.standard.cyclic ∨ s.IsBuilt root) :
    b.Suits host (fun s' => s ≤ s') fun vs v =>
      ∃ ns n, vs = ns.map Value.node ∧ v = .node n ∧ s.IsPath root ns n where
  upheld := fun _ _ step le => le_trans le (step.le hk)
  asked := by
    rintro s₁ s₂ vs n v le - ⟨ns, n, rfl, same, path⟩ asks
    cases same
    have whole := tree n path.reached
    rw [Store.form_eq_of_le le whole.made] at asks
    have operand := whole.fit.mem_operands asks
    obtain ⟨m, rfl⟩ := whole.operands v operand
    exact ⟨n :: ns, m, rfl, rfl, path.operand operand⟩
  cyclic := by
    rintro vs v ⟨ns, n, rfl, rfl, path⟩ met
    obtain same | built := low
    · rw [same]
    · rw [List.map_map] at met
      obtain ⟨m, mem, same⟩ := List.mem_map.1 met
      cases same
      exact absurd mem (path.end_not_mem built)
  stray := by
    rintro vs v ⟨ns, n, rfl, rfl, path⟩ other
    cases other

/-- When a node of a tree is visited, the frame is what the trail of a path down to it says. -/
theorem Position.Reaches.exists_trail {q : Request} {w : World σ} {c : Position σ}
    (h : (start q root w).Reaches host c) (hk : host.KeepsTrees) (tree : w.store.IsTree root) :
    ∃ (t : Trail q.frame.maxDepth) (ns : List NodeRef), c.run.frame = q.frame.along t ∧
      t.values = ns.map Value.node ∧ w.store.IsPath root ns c.node := by
  have sound := isSound_start q tree
  induction h with
  | refl => exact ⟨.start _, [], rfl, rfl, .root⟩
  | @tail p c reached step ih =>
    obtain ⟨t, ns, frame, values, path⟩ := ih
    obtain ⟨slot, child⟩ := step
    obtain ⟨os, visits⟩ := child.visits
    have push := visits.push_eq (isSound_of_reaches reached sound hk) hk
    rw [frame, Frame.push_along_eq_ok_iff] at push
    obtain ⟨new, room, frame'⟩ := push
    have operand := visits.operand
    have le : w.store ≤ p.run.world.store := Reaches.leads reached |>.le hk
    rw [Store.Operand, Store.form_eq_of_le le (tree p.node path.reached).made] at operand
    exact ⟨t.extend p.value new room, p.node :: ns, frame', congrArg (p.value :: ·) values,
      path.operand operand⟩

end Trees

/-- The frame of an evaluation is a trail at every point: the evaluation is the same as one that
neither opens nor closes anything and is handed the trail, so that nothing is closed which is not
the innermost, whatever the host and the root are. Whenever the evaluation of a value ends well, the
frame is as it was found; and a value is refused as a circle exactly if it stands on the trail.

If the nodes of the tree are as the constructors make them, then the trail is the path of nodes from
the root down to the node that is visited, and it makes no difference what would be done with
anything else than a node. If the tree was built, it makes no difference either what would be done
with a value that stands on the trail; and so it is with every evaluation of a node of the tree that
is started in the meantime, be the node open or not. -/
theorem runOn_evaluate_along (host : Host σ) (q : Request) (root : Value) (w : World σ) :
    (evaluate host q root).runOn w = (evaluateAlong host .standard q root).runOn w ∧
    (∀ budget v (r r' : Run σ) o, (evalNode host budget v).runOn r = (.ok o, r') →
      r'.frame = r.frame) ∧
    (∀ (t : Trail q.frame.maxDepth) v,
      (q.frame.along t).push v = .error .cyclic ↔ v.identity ∈ t.identities) ∧
    ∀ n, root = .node n → host.KeepsTrees → w.store.IsTree n →
      (∀ c, (Position.start q n w).Reaches host c →
        ∃ (t : Trail q.frame.maxDepth) (ns : List NodeRef), c.run.frame = q.frame.along t ∧
          t.values = ns.map Value.node ∧ w.store.IsPath n ns c.node) ∧
      (∀ b : Branches σ, b.cyclic = Branches.standard.cyclic →
        (evaluate host q root).runOn w = (evaluateAlong host b q root).runOn w) ∧
      (w.store.IsBuilt n →
        (∀ b, (evaluate host q root).runOn w = (evaluateAlong host b q root).runOn w) ∧
        ∀ m, ReflTransGen w.store.Operand n m → ∀ (inner : Host σ) (q' : Request) (w' : World σ),
          inner.KeepsTrees → w.store ≤ w'.store → ∀ b,
            (evaluate inner q' (.node m)).runOn w' =
              (evaluateAlong inner b q' (.node m)).runOn w') := by
  have trees : ∀ {host : Host σ} {q : Request} {n : NodeRef} {w : World σ} {b : Branches σ},
      host.KeepsTrees → w.store.IsTree n →
      b.cyclic = Branches.standard.cyclic ∨ w.store.IsBuilt n →
      (evaluate host q (.node n)).runOn w = (evaluateAlong host b q (.node n)).runOn w :=
    fun {_} {q} {n} {_} {_} hk tree low =>
      runOn_evaluate_of_suits (suits_of_isTree hk tree low) q ⟨[], n, rfl, rfl, .root⟩ le_rfl
  refine ⟨runOn_evaluate_of_suits suits_standard q trivial trivial,
    fun _ _ _ _ _ ended => frame_eq_of_evalNode ended, fun t v => Frame.push_along_eq_cyclic_iff,
    ?_⟩
  rintro n rfl hk tree
  refine ⟨fun c reached => reached.exists_trail hk tree, fun b low => trees hk tree (.inl low),
    fun built => ⟨fun b => trees hk tree (.inr built), ?_⟩⟩
  intro m reached inner q' w' keeps le b
  have built' := (built.of_reached reached).mono le
  exact trees keeps built'.tree (.inr built')

/-- An operator whose operands are one and the same call, of a routine. -/
def recallingTree : Attempt NodeRef := do
  let callee ← Attempt.node (.literal (.routine ⟨0⟩)) .null
  let call ← Attempt.node (.call (.node callee) (.tuple [] Store.noStamp)) .null
  Attempt.fallback .onNull (.node call) (.node call) .null

/-- The world in which the tree was made. -/
def recallingWorld : World Unit :=
  ⟨(recallingTree.runOn Store.empty).2, .empty, #[], ()⟩

/-- What the routine does: it evaluates the operator, which is open when it is called. -/
def nestedOperator : Act Unit Value := do
  return (← evaluate Host.idle .standard (.node ⟨2⟩)).toValue

/-- The host whose routines do this. -/
def recallingHost : Host Unit :=
  ⟨fun _ _ => nestedOperator.runOn, Host.idle.truth⟩

theorem keepsTrees_recallingHost : recallingHost.KeepsTrees := by
  refine ⟨fun _ _ w => ?_, keepsTrees_idle.truth⟩
  have le : w.store ≤ ((evaluate Host.idle .standard (.node ⟨2⟩)).runOn w).2.store :=
    (Position.ending_leads (p := Position.start .standard ⟨2⟩ w) rfl).le keepsTrees_idle
  show w.store ≤ (nestedOperator.runOn w).2.store
  rw [nestedOperator, Work.runOn_bind]
  rcases evaluated : (evaluate Host.idle .standard (.node ⟨2⟩)).runOn w with ⟨e | o, w'⟩
  · rwa [evaluated] at le
  · rwa [evaluated] at le

theorem isBuilt_recallingWorld : recallingWorld.store.IsBuilt ⟨2⟩ := by
  have made : recallingTree.runOn Store.empty = (.ok ⟨2⟩, recallingWorld.store) := rfl
  obtain ⟨callee, s₁, first, rest⟩ := Work.runOn_bind_eq_ok.1 made
  obtain ⟨call, s₂, second, third⟩ := Work.runOn_bind_eq_ok.1 rest
  have free : ∀ v ∈ (Form.literal (.routine ⟨0⟩)).values, Store.empty.Knows v :=
    Store.knows_all rfl
  obtain ⟨-, routine⟩ := Attempt.isBuilt_of_node free nofun first
  have known : ∀ v ∈ (Form.call (.node callee) (.tuple [] Store.noStamp)).values, s₁.Knows v :=
    List.forall_mem_cons.2 ⟨Store.knows_node routine, Store.knows_all rfl⟩
  have nothing : ∀ c args vs, Form.call (.node callee) (.tuple [] Store.noStamp) = .call c args →
      s₁.items? args = some vs → ∀ v ∈ vs, s₁.Knows v := by
    intro c args vs same items
    cases same
    cases items
    exact nofun
  obtain ⟨-, called⟩ := Attempt.isBuilt_of_node known nothing second
  exact (Attempt.isBuilt_of_fallback called called third).2

/-- The routine evaluates the operator while it is open, and that evaluation visits the call twice;
none of it is taken for a circle. -/
theorem runOn_evaluate_of_recalling :
    let q := Request.standard
    let root : Value := .node ⟨2⟩
    recallingHost.KeepsTrees ∧ recallingWorld.store.IsBuilt ⟨2⟩ ∧
    ((evaluate recallingHost q root).runOn recallingWorld).1.isOk = true ∧
    ((Position.start q ⟨2⟩ recallingWorld).ending recallingHost).2.frame = q.frame ∧
    (∀ stray, (evaluate recallingHost q root).runOn recallingWorld =
      (evaluateAlong recallingHost ⟨Branches.standard.cyclic, stray⟩ q root).runOn
        recallingWorld) ∧
    ∀ b, (evaluate recallingHost q root).runOn recallingWorld =
        (evaluateAlong recallingHost b q root).runOn recallingWorld ∧
      (evaluate Host.idle q root).runOn recallingWorld =
        (evaluateAlong Host.idle b q root).runOn recallingWorld := by
  intro q root
  have built := isBuilt_recallingWorld
  obtain ⟨-, restores, -, tree⟩ := runOn_evaluate_along recallingHost q root recallingWorld
  obtain ⟨-, nodes, alike⟩ := tree ⟨2⟩ rfl keepsTrees_recallingHost built.tree
  obtain ⟨here, inside⟩ := alike built
  have returned : ((evaluate recallingHost q root).runOn recallingWorld).1.isOk = true := by
    decide +kernel
  refine ⟨keepsTrees_recallingHost, built, returned, ?_, fun stray => nodes _ rfl, fun b =>
    ⟨here b, inside ⟨2⟩ .refl Host.idle q recallingWorld keepsTrees_idle le_rfl b⟩⟩
  rcases ends : (Position.start q ⟨2⟩ recallingWorld).ending recallingHost with ⟨e | o, r⟩
  · rw [Position.runOn_evaluate, ends] at returned
    cases returned
  · exact restores _ _ _ _ _ ends

/-- An operator with a number for a left operand, as no constructor makes it. -/
def plantedWorld : World Unit :=
  ⟨{ Store.empty with nodes := #[
      ⟨.literal .null, .null, []⟩,
      ⟨.fallback .onNull (.int 5 Store.noStamp) (.node ⟨0⟩), .null, []⟩] }, .empty, #[], ()⟩

/-- In a tree that was spoilt, something else than a node comes to be evaluated. -/
theorem exists_stray_of_planted : ∃ e w',
    (evaluate Host.idle .standard (.node ⟨1⟩)).runOn plantedWorld = (.error e, w') ∧
    (w'.store.fault e).kind = .malformed ∧
    ∃ s s', (w'.store.fault e).args = .tuple [.str "Unknown node: int" s] s' :=
  ⟨_, _, rfl, rfl, _, _, rfl⟩

end Fallback
