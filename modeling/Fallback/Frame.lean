import Fallback.Options

/-!
Frames: the state of one evaluation.

A frame holds a snapshot of the environment, the limit on the depth and the identities of the values
that are open, the innermost one first, together with the set of these identities. `push` refuses a
value that is open already and a value beyond the limit; `pop` closes the innermost value. Only
nodes are meant to be opened, but a frame does not care.
-/
namespace Fallback

/-- The state of one evaluation (`Frame`): a copy of the environment, the limit on the depth, the
debug switch, whether there is a tracer, and the values that are open. -/
structure Frame where
  vars : Environment
  maxDepth : Nat
  debug : Value
  traced : Bool
  stack : List Identity
  active : List Identity

namespace Frame

/-- The frame at the start of an evaluation (`Frame.__init__`), for an environment that was copied.
-/
def start (env : Environment) (maxDepth : Nat) (debug : Value) (traced : Bool) : Frame :=
  ⟨env, maxDepth, debug, traced, [], []⟩

/-- The limit on the depth under options and a ceiling (`Frame.max_depth`). -/
def limit (options : Options) (ceiling : Nat) : Nat :=
  min options.maxDepth ceiling

/-- The number of open values (`Frame.depth`). -/
def depth (f : Frame) : Nat :=
  f.stack.length

/-- Why a value cannot be opened (`Frame.push`) or closed (`Frame.pop`). -/
inductive Refusal
  | cyclic
  | tooDeep (maxDepth : Nat)
  | nothingOpen
  | unbalanced
  deriving DecidableEq

/-- Opens a value (`Frame.push`). -/
def push (f : Frame) (v : Value) : Except Refusal Frame :=
  let id := v.identity
  if f.active.contains id then .error .cyclic
  else if f.maxDepth ≤ f.depth then .error (.tooDeep f.maxDepth)
  else .ok { f with stack := id :: f.stack, active := id :: f.active }

/-- Closes a value, which has to be the innermost open one (`Frame.pop`). Where it is not, the
innermost value has left the stack and stays in the set. -/
def pop (f : Frame) (v : Value) : Except Refusal Unit × Frame :=
  let id := v.identity
  match f.stack with
  | [] => (.error .nothingOpen, f)
  | top :: rest =>
    if top = id then (.ok (), { f with stack := rest, active := f.active.filter (· != id) })
    else (.error .unbalanced, { f with stack := rest })

/-- The set of open values is the set of values on the stack, and each stands there once. -/
structure IsBalanced (f : Frame) : Prop where
  active_eq : f.active = f.stack
  nodup : f.stack.Nodup

theorem isBalanced_start (env : Environment) (maxDepth : Nat) (debug : Value) (traced : Bool) :
    (start env maxDepth debug traced).IsBalanced :=
  ⟨rfl, List.nodup_nil⟩

theorem IsBalanced.push {f g : Frame} {v : Value} (hf : f.IsBalanced) (h : f.push v = .ok g) :
    g.IsBalanced := by
  unfold Frame.push at h
  simp only at h
  split at h
  · cases h
  · split at h
    · cases h
    · next hn _ =>
      cases h
      have hn : v.identity ∉ f.stack := by simpa [hf.active_eq] using hn
      exact ⟨by simp [hf.active_eq], List.nodup_cons.2 ⟨hn, hf.nodup⟩⟩

/-- Closing the value that was opened last restores the frame. -/
theorem pop_of_push {f g : Frame} {v : Value} (h : f.push v = .ok g) :
    g.pop v = (.ok (), f) := by
  unfold Frame.push at h
  simp only at h
  split at h
  · cases h
  · split at h
    · cases h
    · next hn _ =>
      cases h
      have hn : v.identity ∉ f.active := by simpa using hn
      have keep : f.active.filter (· != v.identity) = f.active :=
        List.filter_eq_self.2 fun m hm => by
          simpa using fun e : m = v.identity => hn (e ▸ hm)
      simp [pop, keep]

end Frame

/-- The message of the fault that reports a refusal. -/
def Frame.Refusal.message : Frame.Refusal → String
  | .cyclic => "cyclic expression tree"
  | .tooDeep maxDepth => "expression tree deeper than max_depth=" ++ toString maxDepth
  | .nothingOpen => "pop from empty list"
  | .unbalanced => "unbalanced evaluation stack"

/-- Ends with the fault that reports a refusal, for a value at a place. -/
def Frame.Refusal.report {α : Type} (place : Value) (refusal : Frame.Refusal) : Attempt α :=
  match refusal with
  | .cyclic | .tooDeep _ => Attempt.malformed place refusal.message
  | .nothingOpen => Attempt.fail .badIndex refusal.message
  | .unbalanced => Attempt.fail .assertion refusal.message

end Fallback
