import Fallback.Proofs.Construction
import Fallback.Proofs.Provenance

/-!
Expressions by their structure alone.

`Expr` is what a built tree stands for, written out so that nothing is shared; `Expr.Shows` says
that a node stands for an expression, and every built tree stands for one. `Expr.eval` gives the
meaning of an expression by recursion on its structure. It works in the world and knows nothing of
frames: no node is open, no depth is counted, and neither trace nor debug log is kept. Where a fault
breaks an expression off, the state of the host is what it was at that moment.
-/
namespace Fallback

variable {σ : Type}

/-! ## Expressions -/

/-- An expression. Every expression has its place in the source, which is null where there is none;
a reference has the text of its name besides the value that is the name. -/
inductive Expr
  | literal (place v : Value)
  | reference (place name : Value) (text : String)
  | call (place : Value) (callee : Expr) (args : List Expr)
  | fallback (place : Value) (op : Operator) (lhs rhs : Expr)
  | ternary (place : Value) (condition thenBranch elseBranch : Expr)
  | raise (place : Value) (e : FaultRef)

namespace Expr

mutual

/-- The number of expressions on the longest way down. -/
def height : Expr → Nat
  | .literal _ _ | .reference _ _ _ | .raise _ _ => 1
  | .call _ callee args => max callee.height (heightOfAll args) + 1
  | .fallback _ _ lhs rhs => max lhs.height rhs.height + 1
  | .ternary _ condition thenBranch elseBranch =>
    max condition.height (max thenBranch.height elseBranch.height) + 1

/-- The height of the highest expression of a list. -/
def heightOfAll : List Expr → Nat
  | [] => 0
  | e :: more => max e.height (heightOfAll more)

end

mutual

/-- The node stands for the expression. -/
def Shows (s : Store) : Expr → NodeRef → Prop
  | .literal place v, n => (s.node n).place = place ∧ s.form n = .literal v
  | .reference place name text, n =>
    (s.node n).place = place ∧ s.form n = .reference name ∧ s.text? name = some text
  | .call place callee args, n =>
    (s.node n).place = place ∧ ∃ c items stamp, s.form n = .call (.node c) (.tuple items stamp) ∧
      callee.Shows s c ∧ ShowAll s args items
  | .fallback place op lhs rhs, n =>
    (s.node n).place = place ∧ ∃ l r, s.form n = .fallback op (.node l) (.node r) ∧
      lhs.Shows s l ∧ rhs.Shows s r
  | .ternary place condition thenBranch elseBranch, n =>
    (s.node n).place = place ∧ ∃ c t e, s.form n = .ternary (.node c) (.node t) (.node e) ∧
      condition.Shows s c ∧ thenBranch.Shows s t ∧ elseBranch.Shows s e
  | .raise place e, n => (s.node n).place = place ∧ s.form n = .raise (.fault e)

/-- The values are nodes that stand for the expressions, one for each. -/
def ShowAll (s : Store) : List Expr → List Value → Prop
  | [], [] => True
  | e :: es, v :: vs => (∃ m, v = .node m ∧ e.Shows s m) ∧ ShowAll s es vs
  | _, _ => False

end

theorem height_pos (e : Expr) : 0 < e.height := by
  cases e <;> simp [height]

end Expr

/-! ## Meaning -/

namespace Plain

/-- Attaches a place to the fault that an outcome raises, if it awaits one and the place tells a
line. -/
def attach (place : Value) (o : Outcome) : Act σ Unit :=
  match o.result with
  | .success _ => return ()
  | .raised e => Act.modifyStore fun s => s.attachFirst e [place]

/-- Attaches a place to what some work raises. -/
def located (place : Value) (x : Act σ Outcome) : Act σ Outcome := do
  let o ← x
  attach place o
  return o

/-- The value bound to a name, or the fault that there is none. -/
def reference (vars : Environment) (name : Value) (text : String) : Act σ Outcome :=
  match vars.get? text with
  | some v => Act.success v
  | none => Act.raisedFault (Attempt.unbound name)

/-- What comes next is chosen by the truth of a value. A fault of the truth test is raised as a
failed call, unless it is an interruption, which breaks off. -/
def choose (host : Host σ) (v : Value) (onTrue onFalse : Act σ Outcome) : Act σ Outcome := do
  match ← (truthTest host v).guarded with
  | .ok true => onTrue
  | .ok false => onFalse
  | .error c => Act.raised (.fault (← guardTest c))

/-- Checks that a value can be called, and then invokes it. A fault of the invocation is raised as a
failed call, unless it is an interruption or the report of a broken tree, which break off. -/
def apply (host : Host σ) (f : Value) (vs : List Value) : Act σ Outcome := do
  let typeName := (← Act.store).typeName f
  if f.isCallable then
    match ← (invoke host f vs).guarded with
    | .ok v => Act.success v
    | .error c => Act.raised (.fault (← guardCall c))
  else
    let c ← Act.ofAttempt
      (Attempt.newMessage .badType ("'" ++ typeName ++ "' object is not callable"))
    Act.raisedFault (Attempt.callFailure (.fault c))

/-- A call: first the callee, then the arguments, and only then what is called. -/
def call (host : Host σ) (callee : Act σ Outcome) (args : Act σ (Except Outcome (List Value))) :
    Act σ Outcome := do
  let o ← callee
  match o.result with
  | .raised _ => return o
  | .success f =>
    match ← args with
    | .error stopped => return stopped
    | .ok vs => apply host f vs

/-- An operator that falls back to its right operand: on whatever the left one raises, on null, or
on a false value. -/
def fallback (host : Host σ) (op : Operator) (lhs rhs : Act σ Outcome) : Act σ Outcome := do
  let o ← lhs
  match op, o.result with
  | .onFault, .success _ => return o
  | .onFault, .raised _ => rhs
  | .onNull, .success v => if v.isNull then rhs else return o
  | .onNull, .raised _ => return o
  | .onFalse, .success v => choose host v (return o) rhs
  | .onFalse, .raised _ => return o

/-- A choice between two branches. -/
def ternary (host : Host σ) (condition thenBranch elseBranch : Act σ Outcome) :
    Act σ Outcome := do
  let o ← condition
  match o.result with
  | .raised _ => return o
  | .success v => choose host v thenBranch elseBranch

end Plain

namespace Expr

mutual

/-- The meaning of an expression under the values of its names. -/
def eval (host : Host σ) (vars : Environment) : Expr → Act σ Outcome
  | .literal place v => Plain.located place (Act.success v)
  | .reference place name text => Plain.located place (Plain.reference vars name text)
  | .call place callee args =>
    Plain.located place (Plain.call host (callee.eval host vars) (evalAll host vars args))
  | .fallback place op lhs rhs =>
    Plain.located place (Plain.fallback host op (lhs.eval host vars) (rhs.eval host vars))
  | .ternary place condition thenBranch elseBranch =>
    Plain.located place (Plain.ternary host (condition.eval host vars)
      (thenBranch.eval host vars) (elseBranch.eval host vars))
  | .raise place e => Plain.located place (evalRaise host (.fault e))

/-- The values of some expressions from left to right, or the first outcome among them that
raises. -/
def evalAll (host : Host σ) (vars : Environment) :
    List Expr → Act σ (Except Outcome (List Value))
  | [] => return .ok []
  | e :: more => do
    let o ← e.eval host vars
    match o.result with
    | .raised _ => return .error o
    | .success v =>
      match ← evalAll host vars more with
      | .error stopped => return .error stopped
      | .ok vs => return .ok (v :: vs)

end

/-! ## Built trees stand for expressions -/

variable {s : Store}

/-- Operands that all stand for expressions stand for a list of them. -/
theorem exists_showAll {vs : List Value}
    (h : ∀ v ∈ vs, ∃ m, v = .node m ∧ ∃ e : Expr, e.Shows s m) : ∃ es, ShowAll s es vs := by
  induction vs with
  | nil => exact ⟨[], trivial⟩
  | cons v vs ih =>
    obtain ⟨m, same, e, shows⟩ := h v (List.mem_cons_self ..)
    obtain ⟨es, all⟩ := ih fun w hw => h w (List.mem_cons_of_mem _ hw)
    exact ⟨e :: es, ⟨m, same, shows⟩, all⟩

theorem exists_shows {n : NodeRef} (built : s.IsBuilt n) : ∃ e : Expr, e.Shows s n := by
  obtain ⟨tree, founded⟩ := built
  induction founded with
  | intro n _ ih =>
    have below : ∀ v ∈ (s.form n).operands, ∃ m, v = .node m ∧ ∃ e : Expr, e.Shows s m := by
      intro v hv
      obtain ⟨m, rfl⟩ := tree.whole.operands v hv
      exact ⟨m, rfl, ih m hv (tree.operand hv)⟩
    have fit := tree.whole.fit
    cases form : s.form n with
    | literal v => exact ⟨.literal _ v, rfl, form⟩
    | reference name =>
      rw [form] at fit
      obtain ⟨⟨text, named, -⟩, -⟩ := fit
      exact ⟨.reference _ name text, rfl, form, named⟩
    | call callee args =>
      rw [form] at fit below
      obtain ⟨items, stamp, rfl⟩ := fit
      obtain ⟨c, rfl, e, shows⟩ := below callee (List.mem_cons_self ..)
      obtain ⟨es, all⟩ := exists_showAll fun v hv => below v (List.mem_cons_of_mem _ hv)
      exact ⟨.call _ e es, rfl, c, items, stamp, form, shows, all⟩
    | fallback op lhs rhs =>
      rw [form] at below
      obtain ⟨l, rfl, e₁, shows₁⟩ := below lhs (by simp [Form.operands])
      obtain ⟨r, rfl, e₂, shows₂⟩ := below rhs (by simp [Form.operands])
      exact ⟨.fallback _ op e₁ e₂, rfl, l, r, form, shows₁, shows₂⟩
    | ternary condition thenBranch elseBranch =>
      rw [form] at below
      obtain ⟨c, rfl, e₁, shows₁⟩ := below condition (by simp [Form.operands])
      obtain ⟨t, rfl, e₂, shows₂⟩ := below thenBranch (by simp [Form.operands])
      obtain ⟨e, rfl, e₃, shows₃⟩ := below elseBranch (by simp [Form.operands])
      exact ⟨.ternary _ e₁ e₂ e₃, rfl, c, t, e, form, shows₁, shows₂, shows₃⟩
    | raise exception =>
      rw [form] at fit
      obtain ⟨e, rfl, -⟩ := fit
      exact ⟨.raise _ e, rfl, form⟩

end Expr

end Fallback
