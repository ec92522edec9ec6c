import Fallback.Evaluation
import Fallback.Script.Building

/-!
The host of scripted callables and host objects.

`scripted` ties a knot: a callable may evaluate an expression, which may invoke callables again.
Each evaluation started by a callable is one level further down, and the levels are bounded.
-/
namespace Fallback.Script

/-! ## Bodies -/

/-- The argument at an index, counted from the end when negative. -/
def argumentAt (args : List Value) (index : Int) : Attempt Value := do
  let place := if index < 0 then index + args.length else index
  match if place < 0 then none else args[place.toNat]? with
  | some v => return v
  | none =>
    Attempt.misuse (if indexBound ≤ index || index < -indexBound then .oversizedIndex
      else .outOfRange "tuple")

/-- The argument at an index that is a value; only an integer is an index. -/
def argumentUnder (args : List Value) (index : Value) : Attempt Value := do
  match index.int? with
  | some n => argumentAt args n
  | none => Attempt.misuse (.notIndex (← Attempt.hostTypeName index))

/-- The sum of two integers, or two texts one after the other; next to an empty text the other one
is the sum. -/
def sum (args : List Value) : Attempt Value := do
  match args with
  | [.int m _, .int n _] => Attempt.integer (m + n)
  | [.str s i, .str t j] =>
    if t = "" then return .str s i
    else if s = "" then return .str t j
    else Attempt.text (s ++ t)
  | _ => Attempt.fail .badType "bad operands"

/-- Binds a name of the environment. Without an environment there is nothing to bind it in. -/
def bindName (name : String) (v : Value) : Build Value := do
  match (← Build.stage).environment with
  | some env =>
    Build.modifyStage fun s => { s with environment := some (Environment.set env name v) }
    return .null
  | none =>
    Build.ofAttempt (Attempt.fail .badType "'NoneType' object does not support item assignment")

/-- Unbinds a name of the environment. -/
def unbindName (name : String) : Build Value := do
  match (← Build.stage).environment with
  | some env =>
    Build.modifyStage fun s => { s with environment := some (Environment.unset env name) }
    return .null
  | none => Build.ofAttempt (Attempt.misuse (.missingAttribute "NoneType" "pop"))

/-- Evaluates a value. The ceiling of the depth is the one that holds now. -/
def evaluateValue (host : Host Stage) (root : Value) (options : Options)
    (environmentOf : Stage → Option Environment) (traced : Bool) : Build Outcome := do
  let ceiling := depthCeiling (← Build.stage).callLimit
  evaluateFor host environmentOf ⟨options, ceiling, [], traced⟩ root

/-- The outcome itself, or its value; in the second case what it raised is thrown. -/
def delivered (unwrapped : Bool) (outcome : Outcome) : Build Value :=
  if unwrapped then Build.ofAttempt outcome.result.unwrap else return outcome.toValue

/-- Counts a use of a body. -/
def countUse (number : Nat) : Build Unit :=
  Build.modifyStage fun s =>
    { s with bodies := s.bodies.modify number fun b => { b with uses := b.uses + 1 } }

/-- Does what a body says. `depth` bounds the nesting of sequences. -/
def perform (host : Host Stage) : Nat → Nat → List Value → Build Value
  | 0, _, _ => Build.ofAttempt (Attempt.misuse .tooDeep)
  | depth + 1, number, args => do
    countUse number
    let cell := (← Build.stage).bodies[number]?.getD default
    match cell.action with
    | .constant v => return v
    | .raises v => Build.ofAttempt (Attempt.raise v)
    | .arguments => Build.ofAttempt (Attempt.list args)
    | .argument index => Build.ofAttempt (argumentUnder args index)
    | .count => Build.ofAttempt (Attempt.integer cell.uses)
    | .readInteger =>
      Build.ofAttempt do
        match ← argumentAt args 0 with
        | .int n stamp => return .int n stamp
        | v => Attempt.integer (← integerOf v)
    | .add => Build.ofAttempt (sum args)
    | .sequence items =>
      match items[min (cell.uses - 1) (items.length - 1)]? with
      | some item => perform host depth item args
      | none => Build.ofAttempt (Attempt.misuse (.outOfRange "list"))
    | .bind name v => bindName name v
    | .unbind name => unbindName name
    | .evaluates root environment options traced unwrapped =>
      let own ← match environment with
        | some names => pure (some (← Build.bindings names))
        | none => pure none
      let root ← Build.term root
      let options ← Build.options options
      let environmentOf := match own with
        | some bindings => fun _ => some bindings
        | none => Stage.environment
      delivered unwrapped (← evaluateValue host root options environmentOf traced)

/-! ## The host -/

/-- The truth of a host object in a session. -/
def truthIn (o : ObjectRef) (session : Session) : Ending Stage Bool :=
  (Act.ofAttempt (Attempt.objectTruth o)).runOn session

/-- The host of scripted callables. `levels` bounds the evaluations that callables start inside each
other. -/
def scripted : Nat → Host Stage
  | 0 => ⟨fun _ _ session => (Act.ofAttempt (Attempt.misuse .tooDeep)).runOn session, truthIn⟩
  | levels + 1 =>
    ⟨fun r args session =>
      let work : Build Value := do
        perform (scripted levels) ((← Build.stage).bodies.size + 1) r.index args
      work.runOn session,
     truthIn⟩

/-- The most evaluations that callables start inside each other. -/
def nestingLevels : Nat :=
  100

/-- The host of a session. -/
def host : Host Stage :=
  scripted nestingLevels

end Fallback.Script
