import Fallback.Proofs.Expression

/-!
Evaluation means what the structure says.

The evaluator keeps a stack of open nodes with a set beside it, counts the depth, and makes
observations on the way. For a built tree that is not too high none of it shows: an evaluation ends
as the plain meaning of the expression does, with the same store and the same state of the host.
`Agrees` is the relation between work within an evaluation and work in the world, closed under the
ways in which work is put together; `evalNode_agrees` carries it along the tree. Its invariant is
that every open node has the present one below it, so a node met twice would be below itself.
-/
namespace Fallback

open Relation (ReflTransGen TransGen)

variable {σ α β : Type} {host : Host σ}

/-! ## Worlds that differ in records only -/

/-- The two worlds are the same but for the trace and the debug log. -/
structure World.Same (w w' : World σ) : Prop where
  store : w.store = w'.store
  host : w.host = w'.host

/-- What the host does has nothing to do with the trace and the debug log. -/
structure Host.IgnoresRecords (host : Host σ) : Prop where
  run (r : RoutineRef) (args : List Value) {w w' : World σ} (same : w.Same w') :
    (host.run r args w).1 = (host.run r args w').1 ∧
      (host.run r args w).2.Same (host.run r args w').2
  truth (o : ObjectRef) {w w' : World σ} (same : w.Same w') :
    (host.truth o w).1 = (host.truth o w').1 ∧ (host.truth o w).2.Same (host.truth o w').2

/-- With such a host the records make no difference to work in the world. -/
theorem Act.Composed.same (hi : host.IgnoresRecords) {x : Act σ α} (hx : Composed host x)
    {w w' : World σ} (same : w.Same w') :
    (x.runOn w).1 = (x.runOn w').1 ∧ (x.runOn w).2.Same (x.runOn w').2 := by
  induction hx generalizing w w' with
  | pure a => exact ⟨rfl, same⟩
  | throw e => exact ⟨rfl, same⟩
  | store =>
    rw [runOn_store, runOn_store, same.store]
    exact ⟨rfl, same⟩
  | attempt h =>
    rw [runOn_ofAttempt, runOn_ofAttempt, same.store]
    exact ⟨rfl, rfl, same.host⟩
  | modify h =>
    rw [runOn_modifyStore, runOn_modifyStore, same.store]
    exact ⟨rfl, rfl, same.host⟩
  | run r args => exact hi.run r args same
  | truth o => exact hi.truth o same
  | guarded hx ih =>
    obtain ⟨result, ends⟩ := ih same
    rw [Work.runOn_guarded, Work.runOn_guarded, result]
    exact ⟨rfl, ends⟩
  | @bind _ _ x f hx hf ihx ihf =>
    obtain ⟨result, ends⟩ := ihx same
    rw [Work.runOn_bind, Work.runOn_bind]
    rcases first : x.runOn w with ⟨a, v⟩
    rcases second : x.runOn w' with ⟨a', v'⟩
    rw [first, second] at result ends
    obtain rfl : a = a' := result
    cases a with
    | error e => exact ⟨rfl, ends⟩
    | ok a => exact ihf a ends

/-! ## Agreement -/

/-- In a frame, and wherever the things of a store have lasted, the first work ends as the second
does, with the same store and the same state of the host; if it ends well, the frame is as it
was. -/
def Agrees (s : Store) (f : Frame) (x : Eval σ α) (y : Act σ α) : Prop :=
  ∀ w w', s ≤ w.store → w.Same w' →
    ∃ r, x.runOn ⟨f, w⟩ = ((y.runOn w').1, r) ∧ r.world.Same (y.runOn w').2 ∧
      s ≤ r.world.store ∧ ∀ a, (y.runOn w').1 = .ok a → r.frame = f

variable {s : Store} {f : Frame}

theorem agrees_pure (a : α) : Agrees s f (pure a : Eval σ α) (pure a) :=
  fun w _ le same => ⟨⟨f, w⟩, rfl, same, le, fun _ _ => rfl⟩

theorem Agrees.bind {x : Eval σ α} {y : Act σ α} {k : α → Eval σ β} {l : α → Act σ β}
    (hx : Agrees s f x y) (hk : ∀ a, Agrees s f (k a) (l a)) :
    Agrees s f (x >>= k) (y >>= l) := by
  intro w w' le same
  obtain ⟨r, runs, ends, lasts, frame⟩ := hx w w' le same
  rw [Work.runOn_bind, Work.runOn_bind, runs]
  rcases plain : y.runOn w' with ⟨e | a, v⟩
  · rw [plain] at ends
    exact ⟨r, rfl, ends, lasts, fun _ ok => by cases ok⟩
  · rw [plain] at ends frame
    obtain ⟨frame', world⟩ := r
    obtain rfl : frame' = f := frame a rfl
    exact hk a world v lasts ends

theorem agrees_act (hk : host.KeepsTrees) (hi : host.IgnoresRecords) {x : Act σ α}
    (hx : x.Composed host) : Agrees s f (Eval.ofAct x) x := by
  intro w w' le same
  obtain ⟨result, ends⟩ := hx.same hi same
  refine ⟨⟨f, (x.runOn w).2⟩, ?_, ends, le_trans le (hx.makes.le hk w), fun _ _ => rfl⟩
  rw [Eval.runOn_ofAct, result]

/-- A debug record is nothing that shows. -/
theorem agrees_debug (answers : host.Answers f.debug) (record : Frame → LogRecord) :
    Agrees s f (debug host record) (pure ()) := by
  intro w w' le same
  obtain ⟨log, runs⟩ := Host.Answers.runOn_debug (r := ⟨f, w⟩) answers record
  exact ⟨_, runs, ⟨same.store, same.host⟩, le, fun _ _ => rfl⟩

/-! ## The rules -/

/-- Work that runs alike everywhere is the same. -/
theorem Work.ext {S : Type} {x y : Work S α} (h : ∀ s, x.runOn s = y.runOn s) : x = y :=
  funext h

namespace Plain

/-- The choice by a truth in terms of the guarded truth test. -/
theorem choose_eq (v : Value) (onTrue onFalse : Act σ Outcome) :
    choose host v onTrue onFalse = (do
      match ← truthOrFailure host v with
      | .error e => Act.raised (.fault e)
      | .ok b => if b then onTrue else onFalse) := by
  refine Work.ext fun w => ?_
  rw [choose, Work.runOn_bind, Work.runOn_guarded, Work.runOn_bind, runOn_truthOrFailure]
  rcases (truthTest host v).runOn w with ⟨c | b, w₁⟩
  · dsimp only
    rw [Work.runOn_bind, Work.runOn_bind]
    rcases (guardTest c).runOn w₁ with ⟨e | x, w₂⟩ <;> rfl
  · cases b <;> rfl

/-- What is called is called as the evaluator calls it. -/
theorem apply_eq (f : Value) (vs : List Value) : apply host f vs = callValue host f vs := by
  refine Work.ext fun w => ?_
  cases callable : f.isCallable with
  | false =>
    rw [apply, callValue]
    simp only [callable]
    rfl
  | true =>
    rw [runOn_callValue callable, apply, Work.runOn_bind_ok (Act.runOn_store w)]
    simp only [callable, if_true]
    rw [Work.runOn_bind, Work.runOn_guarded]
    rcases (invoke host f vs).runOn w with ⟨c | v, w₁⟩ <;> rfl

end Plain

section Rules

variable (hk : host.KeepsTrees) (hi : host.IgnoresRecords)
include hk hi

theorem agrees_choose (v : Value) {x x' : Eval σ Outcome} {y y' : Act σ Outcome}
    (hx : Agrees s f x y) (hx' : Agrees s f x' y') :
    Agrees s f (do
      match ← Eval.ofAct (truthOrFailure host v) with
      | .error e => Eval.ofAct (Act.raised (.fault e))
      | .ok b => if b then x else x') (Plain.choose host v y y') := by
  rw [Plain.choose_eq]
  refine (agrees_act hk hi (composed_truthOrFailure v)).bind fun result => ?_
  cases result with
  | error e => exact agrees_act hk hi (Act.composed_raised _)
  | ok b =>
    cases b with
    | true => exact hx
    | false => exact hx'

theorem agrees_fallback (answers : host.Answers f.debug) (op : Operator)
    {eval : Value → Eval σ Outcome} {lhs rhs : Value} {x y : Act σ Outcome}
    (hl : Agrees s f (eval lhs) x) (hr : Agrees s f (eval rhs) y) :
    Agrees s f (evalFallback host eval op lhs rhs) (Plain.fallback host op x y) := by
  refine hl.bind fun o => ?_
  obtain ⟨self, result⟩ := o
  cases op with
  | onFault =>
    cases result with
    | success v => exact agrees_pure _
    | raised e =>
      have logged := (agrees_debug (s := s) answers fun g => .fallingBack g.depth).bind fun _ => hr
      rw [pure_bind] at logged
      exact logged
  | onNull =>
    cases result with
    | raised e => exact agrees_pure _
    | success v =>
      dsimp only
      cases v.isNull with
      | true => exact hr
      | false => exact agrees_pure _
  | onFalse =>
    cases result with
    | raised e => exact agrees_pure _
    | success v => exact agrees_choose hk hi v (agrees_pure _) hr

theorem agrees_ternary {eval : Value → Eval σ Outcome} {condition thenBranch elseBranch : Value}
    {x y z : Act σ Outcome} (hc : Agrees s f (eval condition) x)
    (ht : Agrees s f (eval thenBranch) y) (he : Agrees s f (eval elseBranch) z) :
    Agrees s f (evalTernary host eval condition thenBranch elseBranch)
      (Plain.ternary host x y z) := by
  refine hc.bind fun o => ?_
  obtain ⟨self, result⟩ := o
  cases result with
  | raised e => exact agrees_pure _
  | success v => exact agrees_choose hk hi v ht he

theorem agrees_call {eval : Value → Eval σ Outcome} {callee : Value} {items : List Value}
    (stamp : Nat) {x : Act σ Outcome} {y : Act σ (Except Outcome (List Value))}
    (hc : Agrees s f (eval callee) x) (ha : Agrees s f (evalArgs eval items) y) :
    Agrees s f (evalCall host eval callee (.tuple items stamp)) (Plain.call host x y) := by
  rw [evalCall_tuple]
  refine hc.bind fun o => ?_
  obtain ⟨self, result⟩ := o
  cases result with
  | raised e => exact agrees_pure _
  | success g =>
    refine ha.bind fun walked => ?_
    cases walked with
    | error stopped => exact agrees_pure _
    | ok vs =>
      dsimp only
      rw [Plain.apply_eq]
      exact agrees_act hk hi (composed_callValue g vs)

end Rules

/-- The walk through arguments that agree one by one. -/
theorem agrees_args {vars : Environment} {eval : Value → Eval σ Outcome} {es : List Expr}
    {items : List Value} (shows : Expr.ShowAll s es items)
    (each : ∀ e ∈ es, ∀ m, .node m ∈ items → e.Shows s m →
      Agrees s f (eval (.node m)) (e.eval host vars)) :
    Agrees s f (evalArgs eval items) (Expr.evalAll host vars es) := by
  induction es generalizing items with
  | nil =>
    cases items with
    | nil => exact agrees_pure _
    | cons v items => exact absurd shows id
  | cons e es ih =>
    cases items with
    | nil => exact absurd shows id
    | cons v items =>
      obtain ⟨⟨m, rfl, first⟩, rest⟩ := shows
      have head := each e (List.mem_cons_self ..) m (List.mem_cons_self ..) first
      refine head.bind fun o => ?_
      obtain ⟨self, result⟩ := o
      cases result with
      | raised x => exact agrees_pure _
      | success v =>
        have tail := ih rest fun e' he m' hm =>
          each e' (List.mem_cons_of_mem _ he) m' (List.mem_cons_of_mem _ hm)
        refine tail.bind fun walked => ?_
        cases walked with
        | error stopped => exact agrees_pure _
        | ok vs => exact agrees_pure _

/-! ## Nodes -/

section Nodes

variable {v : Value} {g : Frame}

/-- A value that the frame takes is entered, and nothing of it shows. -/
theorem runOn_enterNode_of_push (push : f.push v = .ok g) (answers : host.Answers g.debug)
    (w : World σ) :
    ∃ w₁, (enterNode host v).runOn ⟨f, w⟩ = (.ok (w.store.typeName v), ⟨g, w₁⟩) ∧ w₁.Same w := by
  obtain ⟨log, debugs⟩ := Host.Answers.runOn_debug (r := ⟨g, w⟩) answers
    fun h => .enter (h.depth - 1) (w.store.typeName v)
  obtain ⟨t, observes⟩ := Eval.runOn_observe (fun t => t.enter v) (⟨g, { w with log }⟩ : Run σ)
  refine ⟨{ w with log, trace := t }, ?_, rfl, rfl⟩
  rw [enterNode, Work.runOn_bind_ok (runOn_openNode_of_push push),
    Work.runOn_bind_ok (Eval.runOn_store _), Work.runOn_bind_ok debugs,
    Work.runOn_bind_ok observes]
  rfl

/-- A value that was opened last is left, and only the place that it attaches shows. -/
theorem runOn_leaveNode_of_push (push : f.push v = .ok g) (answers : host.Answers g.debug)
    (kind : String) (o : Outcome) (w : World σ) :
    ∃ w₁, (leaveNode host v kind o).runOn ⟨g, w⟩ = (.ok (), ⟨f, w₁⟩) ∧
      w₁.store = w.store.attachPlace v o ∧ w₁.host = w.host := by
  let noted : Run σ := ⟨g, (⟨g, w⟩ : Run σ).noted v o⟩
  obtain ⟨log, debugs⟩ := Host.Answers.runOn_debug (r := noted) answers
    fun h => .exit (h.depth - 1) kind o.isRaised
  have closes : (closeNode v : Eval σ Unit).runOn ⟨g, { noted.world with log }⟩ =
      (.ok (), ⟨f, { noted.world with log }⟩) :=
    runOn_closeNode_of_pop (Frame.pop_of_push push)
  refine ⟨{ noted.world with log }, ?_, rfl, rfl⟩
  rw [runOn_leaveNode, Work.runOn_bind_ok debugs]
  exact closes

end Nodes

theorem Store.placeOf_node (s : Store) (n : NodeRef) : s.placeOf (.node n) = (s.node n).place := by
  show (Environment.get? (s.node n).attributes placeName).getD .null = _
  cases form : (s.node n).form <;>
    simp [Environment.get?, Node.attributes, form, Form.fields, Form.kind, Form.values,
      NodeKind.fieldNames, placeName]

/-- The place of a node is attached as the evaluator does it. -/
theorem Plain.runOn_attach {n : NodeRef} {place : Value} {w : World σ}
    (placed : w.store.placeOf (.node n) = place) (o : Outcome) :
    (attach place o).runOn w =
      (.ok (), { w with store := w.store.attachPlace (.node n) o }) := by
  unfold attach
  cases result : o.result with
  | success v =>
    have nothing : w.store.attachPlace (.node n) o = w.store := by
      simp [Store.attachPlace, result]
    rw [nothing]
    rfl
  | raised e =>
    rw [Store.attachPlace_eq _ _ result, placed]
    rfl

/-- A node that the frame takes agrees if its rule does. -/
theorem agrees_node {n : NodeRef} {g : Frame} {budget : Nat} {place : Value} {y : Act σ Outcome}
    (push : f.push (.node n) = .ok g) (answers : host.Answers f.debug)
    (made : n.index < s.nodes.size) (placed : (s.node n).place = place)
    {form : Form} (shown : s.form n = form)
    (rule : Agrees s g (evalForm host (evalNode host budget) form) y) :
    Agrees s f (evalNode host (budget + 1) (.node n)) (Plain.located place y) := by
  subst shown
  intro w w' le same
  have told : host.Answers g.debug := (Frame.settings_of_push push).2.1 ▸ answers
  obtain ⟨w₁, enters, unchanged⟩ := runOn_enterNode_of_push push told w
  have le₁ : s ≤ w₁.store := unchanged.store ▸ le
  have same₁ : w₁.Same w' := ⟨unchanged.store.trans same.store, unchanged.host.trans same.host⟩
  obtain ⟨r, runs, ends, lasts, frame⟩ := rule w₁ w' le₁ same₁
  have opens : (evalOpen host (evalNode host budget) (.node n)).runOn ⟨g, w₁⟩ =
      ((y.runOn w').1, r) := by
    rw [← runs, ← Store.form_eq_of_le le₁ made]
    rfl
  rw [evalNode, Work.runOn_bind_ok enters, Plain.located, Work.runOn_bind, Work.runOn_bind, opens]
  rcases plain : y.runOn w' with ⟨e | o, v⟩
  · rw [plain] at ends
    exact ⟨r, rfl, ends, lasts, fun _ ok => by cases ok⟩
  · rw [plain] at ends frame
    obtain ⟨frame', world⟩ := r
    obtain rfl : frame' = g := frame o rfl
    have there : v.store.placeOf (.node n) = place := by
      rw [← ends.store, Store.placeOf_node, (lasts.node made).2, placed]
    obtain ⟨w₂, leaves, store, hostState⟩ :=
      runOn_leaveNode_of_push push told (w.store.typeName (.node n)) o world
    dsimp only
    rw [Work.runOn_bind_ok leaves, Work.runOn_bind_ok (Plain.runOn_attach there o)]
    refine ⟨⟨f, w₂⟩, rfl, ⟨?_, hostState.trans ends.host⟩, ?_, fun _ _ => rfl⟩
    · exact store.trans (congrArg (·.attachPlace (.node n) o) ends.store)
    · rw [store]
      exact le_trans lasts (Store.le_attachPlace _ _ _)

/-! ## Trees -/

/-- In a tree that was built no node is below itself. -/
theorem Store.IsBuilt.acyclic {n : NodeRef} (built : s.IsBuilt n) : ¬TransGen s.Operand n n := by
  have founded := built.founded
  clear built
  induction founded with
  | intro n _ ih =>
    intro circle
    obtain ⟨m, operand, back⟩ := TransGen.head'_iff.1 circle
    exact ih m operand (TransGen.tail' back operand)

theorem Store.IsBuilt.operand {n m : NodeRef} (built : s.IsBuilt n) (h : s.Operand n m) :
    s.IsBuilt m :=
  ⟨built.tree.operand h, built.founded.inv h⟩

/-- The nodes of a built tree are built trees. -/
theorem Store.IsBuilt.of_reached {n m : NodeRef} (built : s.IsBuilt n)
    (h : ReflTransGen s.Operand n m) : s.IsBuilt m := by
  induction h with
  | refl => exact built
  | tail _ step ih => exact ih.operand step

/-- The frame can take a node that stands for an expression: every open node has it below, and there
is room for the height of the expression. -/
structure Frame.Admits (f : Frame) (s : Store) (n : NodeRef) (e : Expr) : Prop where
  above : ∀ id ∈ f.active, ∃ m, id = .node m ∧ TransGen s.Operand m n
  room : f.depth + e.height ≤ f.maxDepth

/-- A node that the frame can take is opened, and then the frame can take its operands, as far as
they stand for lower expressions. -/
theorem Frame.Admits.push {n : NodeRef} {e : Expr} (h : f.Admits s n e) (built : s.IsBuilt n) :
    ∃ g, f.push (.node n) = .ok g ∧
      ∀ m e', s.Operand n m → e'.height < e.height → g.Admits s m e' := by
  have closed : Value.identity (.node n) ∉ f.active := by
    intro isOpen
    obtain ⟨m, same, below⟩ := h.above _ isOpen
    cases same
    exact built.acyclic below
  have room := h.room
  have positive := e.height_pos
  have free : ¬f.maxDepth ≤ f.depth := by omega
  have push : f.push (.node n) = .ok { f with
      stack := Value.identity (.node n) :: f.stack
      active := Value.identity (.node n) :: f.active } := by
    simp [Frame.push, closed, free]
  refine ⟨_, push, fun m e' operand less => ⟨fun id isOpen => ?_, ?_⟩⟩
  · obtain rfl | isOpen := List.mem_cons.1 isOpen
    · exact ⟨n, rfl, .single operand⟩
    · obtain ⟨k, rfl, below⟩ := h.above id isOpen
      exact ⟨k, rfl, below.tail operand⟩
  · obtain ⟨depth, maxDepth, -⟩ := Frame.depth_of_push push
    omega

/-- No expression of a list is higher than the highest. -/
theorem Expr.height_le_of_mem {e : Expr} {es : List Expr} (h : e ∈ es) :
    e.height ≤ heightOfAll es := by
  induction es with
  | nil => cases h
  | cons e' es ih =>
    rw [heightOfAll]
    obtain rfl | h := List.mem_cons.1 h
    · exact Nat.le_max_left _ _
    · exact Nat.le_trans (ih h) (Nat.le_max_right _ _)

/-- The rule of a form reads a name as its meaning does. -/
theorem Plain.runOn_reference {w : World σ} {name : Value} {text : String}
    (named : w.store.text? name = some text) (vars : Environment) :
    (lookup vars name).runOn w = (reference vars name text : Act σ Outcome).runOn w := by
  rw [lookup, Work.runOn_bind_ok (runOn_checkKey named), Work.runOn_bind_ok (Act.runOn_store w),
    named]
  rfl

theorem Plain.composed_reference (vars : Environment) (name : Value) (text : String) :
    (reference vars name text : Act σ Outcome).Composed host := by
  unfold reference
  split
  · exact Act.composed_success _
  · exact Act.composed_raisedFault (Attempt.makes_unbound name)

theorem agrees_reference (hk : host.KeepsTrees) (hi : host.IgnoresRecords) {name : Value}
    {text : String} (there : ∀ r, name = .token r → r.index < s.tokens.size)
    (named : s.text? name = some text) (eval : Value → Eval σ Outcome) :
    Agrees s f (evalForm host eval (.reference name)) (Plain.reference f.vars name text) := by
  intro w w' le same
  have alike : (evalForm host eval (.reference name)).runOn ⟨f, w⟩ =
      (Eval.ofAct (Plain.reference f.vars name text)).runOn ⟨f, w⟩ := by
    show (Eval.ofAct (lookup f.vars name)).runOn ⟨f, w⟩ = _
    rw [Eval.runOn_ofAct, Plain.runOn_reference (Store.text?_of_le le there named) f.vars]
    rfl
  rw [alike]
  exact agrees_act hk hi (Plain.composed_reference _ _ _) w w' le same

/-- A node that stands for an expression evaluates as the expression means. -/
theorem evalNode_agrees (hk : host.KeepsTrees) (hi : host.IgnoresRecords) {budget : Nat}
    {n : NodeRef} {e : Expr} (built : s.IsBuilt n) (shows : e.Shows s n)
    (answers : host.Answers f.debug) (admits : f.Admits s n e) (enough : e.height ≤ budget) :
    Agrees s f (evalNode host budget (.node n)) (e.eval host f.vars) := by
  induction budget generalizing n e f with
  | zero => exact absurd e.height_pos (Nat.not_lt_of_le enough)
  | succ budget ih =>
    obtain ⟨g, push, below⟩ := admits.push built
    obtain ⟨vars, debug, -⟩ := Frame.settings_of_push push
    have made := built.tree.whole.made
    have fit := built.tree.whole.fit
    have child : ∀ {m : NodeRef} {e' : Expr}, s.Operand n m → e'.Shows s m → e'.height < e.height →
        Agrees s g (evalNode host budget (.node m)) (e'.eval host f.vars) := by
      intro m e' operand shown less
      rw [← vars]
      exact ih (built.operand operand) shown (debug ▸ answers) (below m e' operand less) (by omega)
    cases e with
    | literal place v =>
      obtain ⟨placed, form⟩ := shows
      exact agrees_node push answers made placed form (agrees_act hk hi (Act.composed_success v))
    | reference place name text =>
      obtain ⟨placed, form, named⟩ := shows
      rw [form] at fit
      rw [← vars]
      exact agrees_node push answers made placed form (agrees_reference hk hi fit.2 named _)
    | raise place x =>
      obtain ⟨placed, form⟩ := shows
      exact agrees_node push answers made placed form (agrees_act hk hi (composed_evalRaise _))
    | call place callee args =>
      obtain ⟨placed, c, items, stamp, form, first, rest⟩ := shows
      refine agrees_node push answers made placed form
        (agrees_call hk hi stamp ?_ (agrees_args rest fun e' he m hm shown => ?_))
      · have less : callee.height < (Expr.call place callee args).height := by
          rw [Expr.height]
          omega
        exact child (Store.operand_of_form form (by simp [Form.operands])) first less
      · have less : e'.height < (Expr.call place callee args).height := by
          have le := Expr.height_le_of_mem he
          rw [Expr.height]
          omega
        exact child (Store.operand_of_form form (List.mem_cons_of_mem _ hm)) shown less
    | fallback place op lhs rhs =>
      obtain ⟨placed, l, r, form, left, right⟩ := shows
      have less : max lhs.height rhs.height < (Expr.fallback place op lhs rhs).height := by
        rw [Expr.height]
        omega
      refine agrees_node push answers made placed form
        (agrees_fallback hk hi (debug ▸ answers) op ?_ ?_)
      · exact child (Store.operand_of_form form (by simp [Form.operands])) left (by omega)
      · exact child (Store.operand_of_form form (by simp [Form.operands])) right (by omega)
    | ternary place condition thenBranch elseBranch =>
      obtain ⟨placed, c, t, x, form, first, second, third⟩ := shows
      have less : max condition.height (max thenBranch.height elseBranch.height) <
          (Expr.ternary place condition thenBranch elseBranch).height := by
        rw [Expr.height]
        omega
      refine agrees_node push answers made placed form (agrees_ternary hk hi ?_ ?_ ?_)
      · exact child (Store.operand_of_form form (by simp [Form.operands])) first (by omega)
      · exact child (Store.operand_of_form form (by simp [Form.operands])) second (by omega)
      · exact child (Store.operand_of_form form (by simp [Form.operands])) third (by omega)

/-- A built tree stands for an expression, and if the expression is not higher than the limit on the
depth, an evaluation of the tree ends as the expression means: with the same result, the same store,
in which every invocation is noted with its arguments, and the same state of the host. -/
theorem runOn_evaluate_eq_eval (hk : host.KeepsTrees) (hi : host.IgnoresRecords) {q : Request}
    (answers : host.Answers q.options.debugTrace) {root : NodeRef} {w : World σ}
    (built : w.store.IsBuilt root) :
    (∃ e : Expr, e.Shows w.store root) ∧
    ∀ e : Expr, e.Shows w.store root → e.height ≤ min q.options.maxDepth q.ceiling →
      ((evaluate host q (.node root)).runOn w).1 = ((e.eval host q.environment).runOn w).1 ∧
      ((evaluate host q (.node root)).runOn w).2.store =
        ((e.eval host q.environment).runOn w).2.store ∧
      ((evaluate host q (.node root)).runOn w).2.host =
        ((e.eval host q.environment).runOn w).2.host := by
  refine ⟨Expr.exists_shows built, fun e shows low => ?_⟩
  have admits : q.frame.Admits w.store root e := by
    refine ⟨nofun, ?_⟩
    show 0 + e.height ≤ min q.options.maxDepth q.ceiling
    omega
  obtain ⟨r, runs, ends, -, -⟩ :=
    evalNode_agrees hk hi built shows answers admits low w w (le_refl _) ⟨rfl, rfl⟩
  rw [Position.runOn_evaluate]
  have ending : (Position.start q root w).ending host =
      (((e.eval host q.environment).runOn w).1, r) := runs
  rw [ending]
  exact ⟨rfl, ends.store, ends.host⟩

theorem ignoresRecords_idle : Host.idle.IgnoresRecords :=
  ⟨fun _ _ _ _ same => ⟨rfl, same⟩, fun _ _ _ same => ⟨rfl, same⟩⟩

/-- An operator whose operands are one and the same reference. -/
def sharingTree : Attempt NodeRef :=
  Attempt.doubled (.reference (.str "x" Store.noStamp)) .onNull .null

/-- The world in which the tree was made. -/
def sharingWorld : World Unit :=
  ⟨(sharingTree.runOn Store.empty).2, .empty, #[], ()⟩

/-- What the tree stands for. -/
def sharingExpr : Expr :=
  let x : Expr := .reference .null (.str "x" Store.noStamp) "x"
  .fallback .null .onNull x x

/-- The reference is evaluated twice, as the expression says. -/
theorem runOn_evaluate_of_shared :
    Host.idle.KeepsTrees ∧ Host.idle.IgnoresRecords ∧ sharingWorld.store.IsBuilt ⟨1⟩ ∧
    sharingExpr.Shows sharingWorld.store ⟨1⟩ ∧ sharingExpr.height = 2 ∧
    let q : Request := { Request.standard with environment := [("x", .null)] }
    ((evaluate Host.idle q (.node ⟨1⟩)).runOn sharingWorld).1 =
        ((sharingExpr.eval Host.idle q.environment).runOn sharingWorld).1 ∧
      ((evaluate Host.idle q (.node ⟨1⟩)).runOn sharingWorld).2.store =
        ((sharingExpr.eval Host.idle q.environment).runOn sharingWorld).2.store ∧
      ((evaluate Host.idle q (.node ⟨1⟩)).runOn sharingWorld).2.host =
        ((sharingExpr.eval Host.idle q.environment).runOn sharingWorld).2.host := by
  have made : sharingTree.runOn Store.empty = (.ok ⟨1⟩, sharingWorld.store) := rfl
  have built : sharingWorld.store.IsBuilt ⟨1⟩ :=
    Attempt.isBuilt_of_doubled (Store.knows_all rfl) (by decide) made
  have shows : sharingExpr.Shows sharingWorld.store ⟨1⟩ :=
    ⟨rfl, ⟨0⟩, ⟨0⟩, rfl, ⟨rfl, rfl, rfl⟩, rfl, rfl, rfl⟩
  have told : Host.idle.Answers (.bool false) := answers_of_isHosted_eq_false rfl
  refine ⟨keepsTrees_idle, ignoresRecords_idle, built, shows, rfl, ?_⟩
  exact (runOn_evaluate_eq_eval keepsTrees_idle ignoresRecords_idle told built).2 sharingExpr shows
    (by decide)

end Fallback
