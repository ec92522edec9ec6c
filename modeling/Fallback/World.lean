import Fallback.Frame
import Fallback.Trace

/-!
The world of an evaluation, and the host that it runs in.

A world is everything that outlives an evaluation: the store, the trace, the debug log and whatever
state the host keeps. `Host` is what the language does not decide itself: what a routine does and
how the truth of a host object is found. Both get the world and give back a world, so a routine may
run evaluations of its own. `Act` is work in the world, and `Eval` work within one evaluation, which
has a frame besides the world.
-/
namespace Fallback

/-- What outlives an evaluation; `σ` is the host's own state. -/
structure World (σ : Type) where
  store : Store
  trace : Trace
  log : Array LogRecord
  host : σ

/-- The end of some work: a result or a fault, and the world that it leaves. -/
abbrev Ending (σ α : Type) := Except FaultRef α × World σ

/-- What the host decides. -/
structure Host (σ : Type) where
  run : RoutineRef → List Value → World σ → Ending σ Value
  truth : ObjectRef → World σ → Ending σ Bool

/-- Work in the world. -/
abbrev Act (σ : Type) : Type → Type := Work (World σ)

namespace Act

variable {σ α : Type}

/-- Work on the store. -/
def ofAttempt (x : Attempt α) : Act σ α :=
  Work.onPart World.store (fun store w => { w with store }) x

/-- The store as it is now. -/
def store : Act σ Store := do
  return (← get).store

/-- Changes the store. -/
def modifyStore (f : Store → Store) : Act σ Unit :=
  modify fun w => { w with store := f w.store }

/-- A new outcome with a value. -/
def success (v : Value) : Act σ Outcome :=
  ofAttempt (Attempt.newOutcome (.success v))

/-- A new outcome with what was raised. -/
def raised (e : Value) : Act σ Outcome :=
  ofAttempt (Attempt.newOutcome (.raised e))

/-- A new outcome with a fault that an attempt makes. -/
def raisedFault (x : Attempt FaultRef) : Act σ Outcome := do
  raised (.fault (← ofAttempt x))

@[simp] theorem runOn_ofAttempt (x : Attempt α) (w : World σ) :
    (ofAttempt x : Act σ α).runOn w =
      ((x.runOn w.store).1, { w with store := (x.runOn w.store).2 }) := rfl

@[simp] theorem runOn_store (w : World σ) : (store : Act σ Store).runOn w = (.ok w.store, w) :=
  rfl

@[simp] theorem runOn_modifyStore (f : Store → Store) (w : World σ) :
    (modifyStore f : Act σ Unit).runOn w = (.ok (), { w with store := f w.store }) := rfl

theorem runOn_success (v : Value) (w : World σ) :
    (success v : Act σ Outcome).runOn w =
      (.ok ⟨⟨w.store.outcomes.size⟩, .success v⟩,
        { w with store := (w.store.addOutcome (.success v)).2 }) := rfl

theorem runOn_raised (e : Value) (w : World σ) :
    (raised e : Act σ Outcome).runOn w =
      (.ok ⟨⟨w.store.outcomes.size⟩, .raised e⟩,
        { w with store := (w.store.addOutcome (.raised e)).2 }) := rfl

end Act

/-- The state of an evaluation that runs: its frame and the world. -/
structure Run (σ : Type) where
  frame : Frame
  world : World σ

/-- Work within an evaluation. A fault that is thrown here breaks the evaluation off; a fault that
an expression raises is an outcome instead. -/
abbrev Eval (σ : Type) : Type → Type := Work (Run σ)

namespace Eval

variable {σ α : Type}

/-- Work in the world. -/
def ofAct (x : Act σ α) : Eval σ α :=
  Work.onPart Run.world (fun world r => { r with world }) x

/-- Work on the store. -/
def ofAttempt (x : Attempt α) : Eval σ α :=
  ofAct (Act.ofAttempt x)

/-- The store as it is now. -/
def store : Eval σ Store := do
  return (← get).world.store

/-- The frame as it is now. -/
def frame : Eval σ Frame := do
  return (← get).frame

/-- Changes the store. -/
def modifyStore (f : Store → Store) : Eval σ Unit :=
  modify fun r => { r with world := { r.world with store := f r.world.store } }

/-- Changes the trace, if the evaluation is traced. -/
def observe (f : Trace → Trace) : Eval σ Unit :=
  modify fun r =>
    if r.frame.traced then { r with world := { r.world with trace := f r.world.trace } } else r

/-- Writes a debug record. -/
def writeLog (record : LogRecord) : Eval σ Unit :=
  modify fun r => { r with world := { r.world with log := r.world.log.push record } }

/-- Work within an evaluation that starts with a frame, as work in the world. -/
def inFrame (x : Eval σ α) (frame : Frame) : Act σ α :=
  Work.ofRun fun w =>
    let (result, r) := x.runOn ⟨frame, w⟩
    (result, r.world)

@[simp] theorem runOn_ofAct (x : Act σ α) (r : Run σ) :
    (ofAct x).runOn r = ((x.runOn r.world).1, { r with world := (x.runOn r.world).2 }) := rfl

@[simp] theorem runOn_store (r : Run σ) :
    (store : Eval σ Store).runOn r = (.ok r.world.store, r) := rfl

@[simp] theorem runOn_frame (r : Run σ) : (frame : Eval σ Frame).runOn r = (.ok r.frame, r) := rfl

@[simp] theorem runOn_modifyStore (f : Store → Store) (r : Run σ) :
    (modifyStore f : Eval σ Unit).runOn r =
      (.ok (), { r with world := { r.world with store := f r.world.store } }) := rfl

@[simp] theorem runOn_inFrame (x : Eval σ α) (frame : Frame) (w : World σ) :
    (x.inFrame frame).runOn w = ((x.runOn ⟨frame, w⟩).1, (x.runOn ⟨frame, w⟩).2.world) := rfl

end Eval

end Fallback
