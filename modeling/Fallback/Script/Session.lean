import Fallback.Assignment
import Fallback.Script.Inherited
import Fallback.Script.Term
import Fallback.World

/-!
Sessions.

A session is a world whose host keeps the bodies of scripted callables, the things stored under
names, the present environment and the limit on nested calls. `Build` is work in a session that may
end with a fault; what was made before the fault stays made.
-/
namespace Fallback.Script

/-- What a scripted callable does, with its values built. The items of a sequence are the numbers of
other bodies. -/
inductive Action
  | constant (v : Value)
  | raises (v : Value)
  | arguments
  | argument (index : Value)
  | count
  | readInteger
  | add
  | sequence (items : List Nat)
  | bind (name : String) (v : Value)
  | unbind (name : String)
  | evaluates (root : Term) (environment : Option NamedTerms) (options : NamedTerms)
      (traced unwrapped : Bool)
  deriving Inhabited

/-- The body of a scripted callable, and how often it has been used. -/
structure BodyCell where
  action : Action
  uses : Nat
  deriving Inhabited

/-- What the host of scripted callables keeps. A routine is a body by its number. -/
structure Stage where
  bodies : Array BodyCell
  names : Environment
  environment : Option Environment
  callLimit : Int

/-- A session. -/
abbrev Session := World Stage

/-- The limit on nested calls that holds where none is set. -/
def standardCallLimit : Int :=
  1000

/-- The session at the start of a script. -/
def Session.start : Session :=
  ⟨{ Store.empty with interpreter }, Trace.empty, #[], ⟨#[], [], none, standardCallLimit⟩⟩

/-- Work in a session. -/
abbrev Build : Type → Type := Act Stage

namespace Build

variable {α : Type}

/-- Work on the store. -/
def ofAttempt (x : Attempt α) : Build α :=
  Act.ofAttempt x

/-- The store as it is now. -/
def store : Build Store :=
  Act.store

/-- What the host keeps now. -/
def stage : Build Stage := do
  return (← get).host

/-- Changes what the host keeps. -/
def modifyStage (f : Stage → Stage) : Build Unit :=
  modify fun w => { w with host := f w.host }

/-- Keeps a body and gives its number. -/
def newBody (action : Action) : Build Nat := do
  let number := (← stage).bodies.size
  modifyStage fun s => { s with bodies := s.bodies.push ⟨action, 0⟩ }
  return number

end Build

end Fallback.Script
