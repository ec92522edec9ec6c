import Fallback.Script.Callable

/-!
Steps of a script and their answers.

`Step.run` carries out one step in a session. A step that ends with a fault answers with the fault,
and the session goes on from where the step has left it.
-/
namespace Fallback.Script

/-- An evaluation as a step. `environment` is absent to keep the present one, and may be null. -/
structure EvalStep where
  root : Term
  environment : Option (Option NamedTerms)
  options : NamedTerms
  unwrapped : Bool
  traced : Bool
  save : Option String
  callLimit : Option Int

/-- What is done with a frame by hand. -/
inductive FrameAction
  | push (n : Term)
  | pop (n : Term)
  | lookup (name : Term)

/-- What is done with the trace by hand. -/
inductive TraceAction
  | enter (n : Term)
  | exit (n outcome : Term)
  | reset
  | show
  | node (n : Term)
  | order
  | text

/-- A step of a script. -/
inductive Step
  | build (v : Term) (name : Option String)
  | eval (e : EvalStep)
  | environment (env : Option (Option NamedTerms))
  | operands (v : Term)
  | options (given : NamedTerms)
  | variables (vars : NamedTerms) (ofProcess : Bool)
  | ceiling (callLimit : Option Int)
  | equal (a b : Term)
  | equivalent (a b : Term)
  | text (v : Term)
  | hash (v : Term)
  | clone (v : Term) (place : Option Term)
  | unwrap (v : Term)
  | classify (v : Term)
  | truth (v : Term)
  | call (callee : Term) (args : List Term)
  | assign (target : Term) (name : String) (v : Term)
  | force (target : Term) (name : String) (v : Term)
  | callable (v : Term)
  | frame (env options : NamedTerms) (actions : List FrameAction) (callLimit : Option Int)
  | trace (action : TraceAction)

/-- An event of a trace with the number of its node. -/
structure NumberedEvent where
  number : Nat
  event : TraceEvent

/-- What a frame answers to an action: its depth, the outcome of a look-up, or a fault and the
depth that it leaves. -/
inductive FrameAnswer
  | depth (n : Nat)
  | outcome (o : Outcome)
  | fault (e : FaultRef) (depth : Nat)

/-- What a value is. -/
structure Classification where
  isNode : Bool
  isSuccess : Bool
  isRaised : Bool
  isNull : Bool
  tokenKind : Option String
  mark : Option Attributes
  typeName : String

/-- What an evaluation has shown. -/
structure Observed where
  result : Except FaultRef Value
  calls : List Invocation
  log : List LogRecord
  events : Option (List NumberedEvent)

/-- The answer to a step. -/
inductive Answer
  | value (v : Value)
  | observed (o : Observed)
  | environment (env : Option Environment)
  | operands (vs : List Value)
  | options (o : Options)
  | ceiling (n : Nat)
  | equal (b : Bool)
  | equivalent (b : Bool)
  | text (t : String)
  | hashable
  | clone (copy original : Value) (distinct equivalent : Bool)
  | classification (c : Classification)
  | result (v : Value)
  | called (v : Value) (calls : List Invocation)
  | done
  | callable (name count : Value) (calls : List (List Value)) (text : String)
  | frame (maxDepth : Nat) (answers : List FrameAnswer)
  | events (balanced : Bool) (events : List NumberedEvent)
  | node (count : Nat) (outcome : Value)
  | order (kinds : List String) (counts : List Nat)
  | fault (e : FaultRef)

/-! ## The limit on nested calls -/

/-- The greatest limit on nested calls. -/
def greatestCallLimit : Int :=
  Int.pow 2 31 - 1

/-- The nested calls that are open whenever a limit is set; a limit has to leave room for more. -/
def openCalls : Int :=
  6

/-- Ends with a fault if there cannot be such a limit on nested calls. -/
def checkCallLimit (limit : Int) : Attempt Unit := do
  if greatestCallLimit < limit || limit < -greatestCallLimit - 1 then
    Attempt.fail .overflow "Python int too large to convert to C int"
  else if limit < 1 then
    Attempt.fail .badValue "recursion limit must be greater or equal than 1"
  else if limit ≤ openCalls then Attempt.misuse .tooDeep

/-- Work that is done under a limit on nested calls, if one is given. -/
def withCallLimit {α : Type} (limit : Option Int) (x : Build α) : Build α := do
  match limit with
  | none => x
  | some n =>
    Build.ofAttempt (checkCallLimit n)
    let before := (← Build.stage).callLimit
    Build.modifyStage fun s => { s with callLimit := n }
    let result ← ExceptT.mk (Except.ok <$> x.run)
    Build.modifyStage fun s => { s with callLimit := before }
    ExceptT.mk (pure result)

/-- The ceiling of the depth now. -/
def presentCeiling : Build Nat := do
  return depthCeiling (← Build.stage).callLimit

/-! ## Small steps -/

/-- Stores a value under a name. -/
def store (name : Option String) (v : Value) : Build Unit := do
  match name with
  | none => return ()
  | some n => Build.modifyStage fun s => { s with names := Environment.set s.names n v }

/-- Sets the environment of the session, unless it is to be kept. -/
def setEnvironment (env : Option (Option NamedTerms)) : Build Unit := do
  match env with
  | none => return ()
  | some none => Build.modifyStage fun s => { s with environment := none }
  | some (some names) =>
    let environment ← Build.bindings names
    Build.modifyStage fun s => { s with environment := some environment }

/-- The events of a trace from a place on, with the numbers of their nodes. -/
def numberedFrom (t : Trace) (start : Nat) : List NumberedEvent :=
  let nodes := t.nodes
  (t.events.toList.drop start).map fun e => ⟨nodes.idxOf e.node.identity, e⟩

/-- A text of the present store. -/
def shown (text : Store → Shown) : Build String :=
  Build.ofAttempt (Attempt.ask text)

/-- The value is an outcome with a result of one kind. -/
def isOutcome (s : Store) (ofKind : Result → Bool) : Value → Bool
  | .outcome o => ofKind (s.outcome o).result
  | _ => false

/-- What a value is. -/
def classificationOf (v : Value) : Attempt Classification := do
  let s ← get
  let tokenKind ← match v with
    | .token t => some <$> Attempt.ask fun s => s.plainText (s.token t).kind
    | _ => pure none
  return {
    isNode := v.isNode
    isSuccess := isOutcome s (fun | .success _ => true | _ => false) v
    isRaised := isOutcome s (fun | .raised _ => true | _ => false) v
    isNull := v.isNull
    tokenKind
    mark := ← Attempt.mark? v
    typeName := s.typeName v }

/-- What a value does under a name: what it was given to do, or else what things of its kind do. -/
def actOn (v : Value) (name : String) (usual : Build Value) : Build Value := do
  match (← Build.store).attribute? v name with
  | some way => invoke host way []
  | none => usual

/-- Ends because a value can do nothing under a name. -/
def cannot (v : Value) (name : String) : Build Value :=
  Build.ofAttempt do Attempt.misuse (.missingAttribute (← Attempt.hostTypeName v) name)

/-- A copy of a recoverable fault. -/
def copyOfValue (v : Value) : Build Value :=
  actOn v copyName do
    match v with
    | .fault e =>
      if ((← Build.store).fault e).kind.isLocatable then copyOf host e else cannot v copyName
    | _ => cannot v copyName

/-- A copy of a recoverable fault, at a place of its own if one is given. -/
def cloneOf (v : Value) (place : Option Value) : Build Answer := do
  let copy ← copyOfValue v
  match place with
  | some p => Build.ofAttempt (Attempt.assign copy placeName p)
  | none => pure ()
  let same ← Build.ofAttempt (Attempt.ask fun s => s.areEquivalent copy v)
  return .clone copy v (!copy.isSame v) same

/-- The name under which an outcome gives its value. -/
def unwrapName : String :=
  "unwrap"

/-- The value of an outcome that is a value itself; what it raised is thrown. -/
def unwrapValue (v : Value) : Build Value :=
  actOn v unwrapName do
    match v with
    | .outcome o => Build.ofAttempt ((← Build.store).outcome o).result.unwrap
    | _ => cannot v unwrapName

/-- Sets a variable of the process and gives what is found there afterwards. Only a text can be its
value; neither that nor the name can hold the null character, and the name is neither empty nor does
it hold an equals sign. -/
def setVariable (name : String) (v : Value) : Attempt Value := do
  match (← get).text? v with
  | some t =>
    if name.toList.contains '\x00' || t.toList.contains '\x00' then
      Attempt.fail .badValue "embedded null byte"
    else if name.toList.contains '=' then
      Attempt.fail .badValue "illegal environment variable name"
    else if name = "" then Attempt.fail .system "[Errno 22] Invalid argument"
    else Attempt.text t
  | none => Attempt.fail .badType ("str expected, not " ++ (← Attempt.typeName v))

/-- What a callable tells of itself. -/
def callableAnswer (v : Value) : Attempt Answer := do
  let name ← Part.named v Fault.subjectName
  let count ← Part.named v Part.countName
  let calls ← (← Attempt.items (← Part.named v "calls")).mapM Attempt.items
  let text ← Attempt.ask fun s => s.quotedText v
  return .callable name count calls text

/-! ## Evaluations -/

/-- Carries out an evaluation and gives its result. -/
def evaluateStep (e : EvalStep) : Build Value := do
  setEnvironment e.environment
  let options ← Build.options e.options
  let root ← Build.term e.root
  let v ← withCallLimit e.callLimit do
    delivered e.unwrapped (← evaluateValue host root options Stage.environment e.traced)
  store e.save v
  return v

/-- Carries out an evaluation and gives what it has shown. -/
def observe (e : EvalStep) (session : Session) : Observed × Session :=
  let (result, after) := (evaluateStep e).runOn session
  let events :=
    if e.traced then some (numberedFrom after.trace session.trace.events.size) else none
  ({ result
     calls := after.store.invocations.toList.drop session.store.invocations.size
     log := after.log.toList.drop session.log.size
     events }, after)

/-- Builds a term within a frame. -/
def inFrameTerm (t : Term) : Eval Stage Value :=
  Eval.ofAct (Build.term t)

/-- Does something with a frame. -/
def actOnFrame : FrameAction → Eval Stage FrameAnswer
  | .push n => do
    openNode (← inFrameTerm n)
    return .depth (← Eval.frame).depth
  | .pop n => do
    closeNode (← inFrameTerm n)
    return .depth (← Eval.frame).depth
  | .lookup name => do
    let name ← inFrameTerm name
    return .outcome (← Eval.ofAct (lookup (← Eval.frame).vars name))

/-- Does something with a frame and answers a fault with the depth that it leaves. -/
def answerOfFrame (action : FrameAction) : Eval Stage FrameAnswer := do
  match ← (actOnFrame action).guarded with
  | .ok answer => return answer
  | .error e => return .fault e (← Eval.frame).depth

/-! ## Steps -/

/-- Does something with the trace. -/
def actOnTrace (action : TraceAction) : Build Answer := do
  match action with
  | .enter n =>
    let n ← Build.term n
    modify fun w => { w with trace := w.trace.enter n }
    answerAll
  | .exit n outcome =>
    let n ← Build.term n
    let outcome ← Build.term outcome
    modify fun w => { w with trace := w.trace.exit n outcome }
    answerAll
  | .reset =>
    modify fun w => { w with trace := Trace.empty }
    answerAll
  | .show => answerAll
  | .node n =>
    let n ← Build.term n
    let t := (← get).trace
    return .node (t.count n) (t.outcomeOf n)
  | .order =>
    let w ← get
    let nodes := w.trace.order
    return .order (nodes.map w.store.typeName) (nodes.map w.trace.count)
  | .text =>
    let t := (← get).trace
    return .text (← shown fun s => s.traceText t)
where
  answerAll : Build Answer := do
    let t := (← get).trace
    return .events t.isBalanced (numberedFrom t 0)

/-- Carries out a step. -/
def Step.perform : Step → Build Answer
  | .build v name => do
    let v ← Build.term v
    store name v
    return .value v
  | .eval e => do
    let (observed, session) := observe e (← get)
    set session
    return .observed observed
  | .environment env => do
    setEnvironment env
    return .environment (← Build.stage).environment
  | .operands v => do
    let v ← Build.term v
    return .operands ((← Build.store).operands v)
  | .options given => do
    return .options (← Build.options given)
  | .variables vars ofProcess => do
    let vars ← Build.bindings vars
    Build.ofAttempt do
      let vars ← if ofProcess then vars.mapM fun v => return (v.1, ← setVariable v.1 v.2)
        else pure vars
      return .options (← Attempt.optionsOfVariables (Environment.get? vars))
  | .ceiling limit => do
    return .ceiling (← withCallLimit limit presentCeiling)
  | .equal a b => do
    let a ← Build.term a
    let b ← Build.term b
    return .equal (← Build.ofAttempt (Attempt.ask fun s => s.areEqual a b))
  | .equivalent a b => do
    let a ← Build.term a
    let b ← Build.term b
    return .equivalent (← Build.ofAttempt (Attempt.ask fun s => s.areEquivalent a b))
  | .text v => do
    let v ← Build.term v
    return .text (← shown fun s => s.quotedText v)
  | .hash v => do
    let v ← Build.term v
    Build.ofAttempt (Attempt.ask fun s => s.checkKey v)
    return .hashable
  | .clone v place => do
    let v ← Build.term v
    let place ← Build.optional place
    cloneOf v place
  | .unwrap v => do
    let v ← Build.term v
    return .value (← unwrapValue v)
  | .classify v => do
    let v ← Build.term v
    return .classification (← Build.ofAttempt (classificationOf v))
  | .truth v => do
    let v ← Build.term v
    let outcome ← match ← truthOrFailure host v with
      | .ok b => Act.success (.bool b)
      | .error e => Act.raised (.fault e)
    return .result outcome.toValue
  | .call callee args => do
    let callee ← Build.term callee
    let args ← Build.terms args
    let before := (← Build.store).invocations.size
    let outcome ← callValue host callee args
    return .called outcome.toValue ((← Build.store).invocations.toList.drop before)
  | .assign target name v => do
    let target ← Build.term target
    let v ← Build.term v
    Build.ofAttempt (Attempt.assign target name v)
    return .done
  | .force target name v => do
    let target ← Build.term target
    let v ← Build.term v
    Build.ofAttempt (Attempt.overwrite target name v)
    return .done
  | .callable v => do
    let v ← Build.term v
    Build.ofAttempt (callableAnswer v)
  | .frame env given actions limit => do
    let env ← Build.bindings env
    let options ← Build.options given
    let ceiling ← withCallLimit limit presentCeiling
    let maxDepth := Frame.limit options ceiling
    let frame := Frame.start env maxDepth options.debugTrace false
    let answers ← (actions.mapM answerOfFrame).inFrame frame
    return .frame maxDepth answers
  | .trace action => actOnTrace action

/-- Carries out a step in a session; a fault that ends it is the answer. -/
def Step.run (step : Step) (session : Session) : Answer × Session :=
  match step.perform.runOn session with
  | (.ok answer, after) => (answer, after)
  | (.error e, after) => (.fault e, after)

end Fallback.Script
