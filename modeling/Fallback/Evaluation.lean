import Fallback.World

/-!
Evaluation of expressions.

`evalNode` opens a node, applies the rule of its form, attaches the node's place to a fault that has
none yet, and closes the node. A recoverable failure is an outcome; only a broken tree, an
interruption of the host and a value that cannot be shown in a message break an evaluation off. The
budget of `evalNode` is the number of nodes that may still be opened inside each other.

`evaluate` has the environment as it was when the frame was made. How it is read from what the
caller keeps is said by `evaluateFor`.

An outcome is a thing of its own: an operator that keeps the outcome of an operand hands on the very
same one.
-/
namespace Fallback

variable {σ : Type}

/-! ## Values of the host -/

/-- The truth of a value (`bool`). Only a host object's truth test can fail. -/
def truthTest (host : Host σ) (v : Value) : Act σ Bool := do
  match v with
  | .object o => Work.ofRun (host.truth o)
  | v => return (← Act.store).truth v

/-- The truth of a value, or the failed call that its truth test is (`truthiness`). -/
def truthOrFailure (host : Host σ) (v : Value) : Act σ (Except FaultRef Bool) := do
  match ← (truthTest host v).guarded with
  | .ok b => return .ok b
  | .error e =>
    if ((← Act.store).fault e).kind.isOrdinary then
      return .error (← Act.ofAttempt (failure (.fault e)))
    else throw e
where
  failure (cause : Value) : Attempt FaultRef := do
    let named ← Attempt.ask fun s => s.namedText cause
    Attempt.newCallFailure cause (← Attempt.text ("truth test failed: " ++ named))

/-- Writes a debug record, if the evaluation is debugged. The truth of the debug switch is found
anew for every record. -/
def debug (host : Host σ) (record : Frame → LogRecord) : Eval σ Unit := do
  let frame ← Eval.frame
  if ← Eval.ofAct (truthTest host frame.debug) then Eval.writeLog (record frame)

/-- Invokes a value. A callable first adds the tuple of the arguments to its list of calls, and then
runs its routine (`CountingCallable.__call__`); a routine notes the invocation of the callable that
it was made for. Where something else was put in the place of the list, it is asked to do the
adding. `links` bounds the number of callables that lead to each other in this way. -/
def invokeWithin (host : Host σ) : Nat → Value → List Value → Act σ Value
  | 0, _, _ => Act.ofAttempt (Attempt.misuse .tooDeep)
  | links + 1, callee, args => do
    match callee with
    | .callable f =>
      let s ← Act.store
      let calls := (s.callable f).calls
      let noted ← Act.ofAttempt (Attempt.tuple args)
      match calls, s.attribute? calls "append" with
      | .list _ stamp, _ => Act.modifyStore fun s => s.addItem stamp noted
      | _, some adder =>
        let _ ← invokeWithin host links adder [noted]
      | _, none =>
        Act.ofAttempt (Attempt.misuse (.missingAttribute (s.hostTypeName calls) "append"))
      invokeWithin host links ((← Act.store).callable f).routine args
    | .routine r =>
      Act.modifyStore fun s =>
        match s.ownerOf? r with
        | some f => s.addInvocation f args
        | none => s
      Work.ofRun (host.run r args)
    | v =>
      let s ← Act.store
      Act.ofAttempt (Attempt.misuse (.notCallable (s.hostTypeName v)))

/-- Invokes a value; the links between callables cannot be more than there are callables. -/
def invoke (host : Host σ) (callee : Value) (args : List Value) : Act σ Value := do
  invokeWithin host ((← Act.store).callables.size + 2) callee args

/-- Calls a value with arguments (`call_value`). Whatever it returns is a value, also when it looks
like an outcome or a fault. -/
def callValue (host : Host σ) (callee : Value) (args : List Value) : Act σ Outcome := do
  let s ← Act.store
  if callee.isCallable then
    match ← (invoke host callee args).guarded with
    | .ok v => Act.success v
    | .error e =>
      if ((← Act.store).fault e).kind.escapesCall then throw e
      else Act.raisedFault (Attempt.callFailure (.fault e))
  else
    let cause ← Act.ofAttempt
      (Attempt.newMessage .badType ("'" ++ s.typeName callee ++ "' object is not callable"))
    Act.raisedFault (Attempt.callFailure (.fault cause))

/-! ## Opening and closing nodes -/

/-- Opens a value (`Frame.push`). -/
def openNode (v : Value) : Eval σ Unit := do
  let r ← get
  match r.frame.push v with
  | .ok frame => set { r with frame }
  | .error refusal => Eval.ofAttempt (refusal.report (r.world.store.placeOf v))

/-- Closes a value (`Frame.pop`). -/
def closeNode (v : Value) : Eval σ Unit := do
  let r ← get
  let (result, frame) := r.frame.pop v
  set { r with frame }
  match result with
  | .ok () => return ()
  | .error refusal => Eval.ofAttempt (refusal.report (r.world.store.placeOf v))

/-- The store with the place of a node attached to a raised fault (`_maybe_attach_location`),
provided that the fault is one of the language's own and has no place yet, and that the node has a
line. -/
def Store.attachPlace (s : Store) (v : Value) (o : Outcome) : Store :=
  match o.result with
  | .raised (.fault e) =>
    let place := s.placeOf v
    if (s.fault e).awaitsPlace && (s.line? place).isSome then s.locate e place else s
  | _ => s

/-! ## The rules -/

/-- The value bound to a name in the snapshot, or the fault that there is none (`eval_variable`,
`Frame.lookup`). A name that is no text is never bound. -/
def lookup (vars : Environment) (name : Value) : Act σ Outcome := do
  Act.ofAttempt (Attempt.ask fun s => s.checkKey name)
  let text := (← Act.store).text? name
  match text.bind fun t => vars.get? t with
  | some v => Act.success v
  | none => Act.raisedFault (Attempt.unbound name)

/-- Evaluates arguments from left to right; the first raised outcome ends the walk (`eval_args`). -/
def evalArgs (eval : Value → Eval σ Outcome) : List Value → Eval σ (Except Outcome (List Value))
  | [] => return .ok []
  | arg :: more => do
    let outcome ← eval arg
    match outcome.result with
    | .raised _ => return .error outcome
    | .success v =>
      match ← evalArgs eval more with
      | .error o => return .error o
      | .ok vs => return .ok (v :: vs)

/-- Evaluates what was added to the arguments of a call while they were evaluated. Only the tuple of
the arguments of an invocation is ever added to a list, so this breaks the evaluation off. -/
def evalAdded (eval : Value → Eval σ Outcome) (args : Value) (known : Nat) : Eval σ Unit := do
  (((← Eval.store).items? args).getD []).drop known |>.forM fun v => do
    let _ ← eval v

/-- A call evaluates the callee, then the arguments, and only then invokes (`eval_call`). -/
def evalCall (host : Host σ) (eval : Value → Eval σ Outcome) (callee args : Value) :
    Eval σ Outcome := do
  let outcome ← eval callee
  match outcome.result with
  | .raised _ => return outcome
  | .success f =>
    let items ← Eval.ofAttempt (Attempt.items args)
    match ← evalArgs eval items with
    | .error o => return o
    | .ok vs =>
      evalAdded eval args items.length
      Eval.ofAct (callValue host f vs)

/-- An operator evaluates its left operand once and keeps the outcome, or falls back to the outcome
of its right operand: on any fault (`eval_exception_coalesce`), on null (`eval_null_coalesce`), or
on a false value (`eval_short_ternary`). A fault that was fallen back from is dropped unread. -/
def evalFallback (host : Host σ) (eval : Value → Eval σ Outcome) (op : Operator)
    (lhs rhs : Value) : Eval σ Outcome := do
  let current ← eval lhs
  match op, current.result with
  | .onFault, .success _ => return current
  | .onFault, .raised _ =>
    debug host fun f => .fallingBack f.depth
    eval rhs
  | _, .raised _ => return current
  | .onNull, .success v => if v.isNull then eval rhs else return current
  | .onFalse, .success v =>
    match ← Eval.ofAct (truthOrFailure host v) with
    | .error e => Eval.ofAct (Act.raised (.fault e))
    | .ok b => if b then return current else eval rhs

/-- A choice evaluates its condition and then exactly one branch (`eval_ternary`). -/
def evalTernary (host : Host σ) (eval : Value → Eval σ Outcome)
    (condition thenBranch elseBranch : Value) : Eval σ Outcome := do
  let current ← eval condition
  match current.result with
  | .raised _ => return current
  | .success v =>
    match ← Eval.ofAct (truthOrFailure host v) with
    | .error e => Eval.ofAct (Act.raised (.fault e))
    | .ok b => if b then eval thenBranch else eval elseBranch

/-- A copy of a recoverable fault (`CoalesceError.clone`), unless the fault was given a way of its
own to be copied. -/
def copyOf (host : Host σ) (e : FaultRef) : Act σ Value := do
  match (← Act.store).attribute? (.fault e) copyName with
  | some way => invoke host way []
  | none => return .fault (← Act.ofAttempt (Attempt.copyFault e))

/-- A raising node raises what it holds; of a recoverable fault it raises a fresh copy, so that no
place attached to it reaches the tree (`eval_raise`). -/
def evalRaise (host : Host σ) (exception : Value) : Act σ Outcome := do
  match exception with
  | .fault e =>
    if ((← Act.store).fault e).kind.isLocatable then Act.raised (← copyOf host e)
    else Act.raised exception
  | v => Act.raised v

/-- The rule of a node's form, for an evaluator of its children (`_eval_node_inner`). -/
def evalForm (host : Host σ) (eval : Value → Eval σ Outcome) : Form → Eval σ Outcome
  | .literal v => Eval.ofAct (Act.success v)
  | .reference name => do Eval.ofAct (lookup (← Eval.frame).vars name)
  | .call callee args => evalCall host eval callee args
  | .fallback op lhs rhs => evalFallback host eval op lhs rhs
  | .ternary condition thenBranch elseBranch =>
    evalTernary host eval condition thenBranch elseBranch
  | .raise exception => Eval.ofAct (evalRaise host exception)

/-- Evaluates what is open: a node by the rule of its form. Anything else cannot be evaluated (the
last case of `_eval_node_inner`). -/
def evalOpen (host : Host σ) (eval : Value → Eval σ Outcome) (v : Value) : Eval σ Outcome := do
  let s ← Eval.store
  match v with
  | .node n => evalForm host eval (s.form n)
  | v => Eval.ofAttempt (Attempt.malformed (s.placeOf v) ("Unknown node: " ++ s.typeName v))

/-! ## Evaluating a tree -/

/-- Enters a node: opens it and makes the observations that go with it, which is what `eval_node`
does before the rule of the node. Gives the name of the node's kind. -/
def enterNode (host : Host σ) (v : Value) : Eval σ String := do
  openNode v
  let kind := (← Eval.store).typeName v
  debug host fun f => .enter (f.depth - 1) kind
  Eval.observe fun t => t.enter v
  return kind

/-- Leaves a node of a kind with an outcome: attaches the node's place, makes the observations that
go with it and closes the node, which is what `eval_node` does after the rule of the node. -/
def leaveNode (host : Host σ) (v : Value) (kind : String) (outcome : Outcome) : Eval σ Unit := do
  Eval.modifyStore fun s => s.attachPlace v outcome
  Eval.observe fun t => t.exit v outcome.toValue
  debug host fun f => .exit (f.depth - 1) kind outcome.isRaised
  closeNode v

/-- Evaluates a node (`eval_node`). Without a budget no node can be opened, because the frame is
full. -/
def evalNode (host : Host σ) : Nat → Value → Eval σ Outcome
  | 0, v => do
    openNode v
    Eval.ofAttempt (Attempt.misuse .tooDeep)
  | budget + 1, v => do
    let kind ← enterNode host v
    let outcome ← evalOpen host (evalNode host budget) v
    leaveNode host v kind outcome
    return outcome

/-- What an evaluation is asked to do: the options, the ceiling of its depth (`max_depth_ceiling`),
a copy of the environment, and whether it is traced. -/
structure Request where
  options : Options
  ceiling : Nat
  environment : Environment
  traced : Bool

/-- The frame that an evaluation starts with (`Frame.__init__`). -/
def Request.frame (q : Request) : Frame :=
  Frame.start q.environment (Frame.limit q.options q.ceiling) q.options.debugTrace q.traced

/-- Evaluates a tree in a frame of its own (`evaluate`), in an environment that was copied for it;
only a node is a tree. -/
def evaluate (host : Host σ) (q : Request) (root : Value) : Act σ Outcome := do
  if root.isNode then (evalNode host q.frame.maxDepth root).inFrame q.frame
  else
    Act.ofAttempt
      (Attempt.malformed .null
        ("Expected an expression node, got " ++ (← Act.store).typeName root))

/-- The request with a copy of an environment, which is empty where there is none. -/
def Request.within (q : Request) (environment : Option Environment) : Request :=
  { q with environment := environment.getD [] }

/-- Evaluates a tree for a caller (`evaluate`). The environment is the caller's own, and routines
may change it at any time: `environmentOf` finds it in what the host keeps. It is read once, when
the frame is made (`Frame.__init__`); the frame has a copy. Of the request all but the environment
counts. -/
def evaluateFor (host : Host σ) (environmentOf : σ → Option Environment) (q : Request)
    (root : Value) : Act σ Outcome := do
  evaluate host (q.within (environmentOf (← get).host)) root

/-- The value of a result; what it raised is thrown (`unwrap`). -/
def Result.unwrap : Result → Attempt Value
  | .success v => return v
  | .raised e => Attempt.raise e

end Fallback
