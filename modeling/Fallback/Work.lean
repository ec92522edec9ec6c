import Fallback.Value

/-!
Work on a state that a fault may break off.

The state is kept in both cases, so what was done before the fault stays done. `Work.runOn` gives
the result or the fault together with the state that is left; the laws below say how each way of
putting work together runs, and nothing that runs work has to be opened any further.
-/
namespace Fallback

/-- Work on a state of type `S` that a fault may break off. -/
abbrev Work (S : Type) : Type → Type := ExceptT FaultRef (StateM S)

namespace Work

variable {S T α β : Type}

/-- Runs work on a state. -/
def runOn (x : Work S α) (s : S) : Except FaultRef α × S :=
  x.run.run s

/-- A function of the state, as work on it. -/
def ofRun (f : S → Except FaultRef α × S) : Work S α :=
  ExceptT.mk (modifyGet f)

/-- The result of some work, or the fault that broke it off. -/
def guarded (x : Work S α) : Work S (Except FaultRef α) :=
  ofRun fun s => ((Except.ok (x.runOn s).1), (x.runOn s).2)

/-- Work on a part of a state. -/
def onPart (read : S → T) (write : T → S → S) (x : Work T α) : Work S α :=
  ofRun fun s =>
    let (result, t) := x.runOn (read s)
    (result, write t s)

/-! ## Running -/

@[simp] theorem runOn_ofRun (f : S → Except FaultRef α × S) (s : S) : (ofRun f).runOn s = f s :=
  rfl

@[simp] theorem runOn_pure (a : α) (s : S) : (pure a : Work S α).runOn s = (.ok a, s) := rfl

@[simp] theorem runOn_throw (e : FaultRef) (s : S) :
    (throw e : Work S α).runOn s = (.error e, s) := rfl

@[simp] theorem runOn_get (s : S) : (get : Work S S).runOn s = (.ok s, s) := rfl

@[simp] theorem runOn_set (t s : S) : (set t : Work S PUnit).runOn s = (.ok ⟨⟩, t) := rfl

@[simp] theorem runOn_modify (f : S → S) (s : S) :
    (modify f : Work S PUnit).runOn s = (.ok ⟨⟩, f s) := rfl

@[simp] theorem runOn_modifyGet (f : S → α × S) (s : S) :
    (modifyGet f : Work S α).runOn s = (.ok (f s).1, (f s).2) := rfl

@[simp] theorem runOn_guarded (x : Work S α) (s : S) :
    x.guarded.runOn s = (.ok (x.runOn s).1, (x.runOn s).2) := rfl

@[simp] theorem runOn_onPart (read : S → T) (write : T → S → S) (x : Work T α) (s : S) :
    (onPart read write x).runOn s = ((x.runOn (read s)).1, write (x.runOn (read s)).2 s) := rfl

/-- A fault breaks off whatever was to come after it. -/
theorem runOn_bind (x : Work S α) (f : α → Work S β) (s : S) :
    (x >>= f).runOn s =
      match x.runOn s with
      | (.ok a, t) => (f a).runOn t
      | (.error e, t) => (.error e, t) := by
  simp only [runOn, ExceptT.run_bind, StateT.run_bind]
  rcases x.run.run s with ⟨_ | _, _⟩ <;> rfl

theorem runOn_map (f : α → β) (x : Work S α) (s : S) :
    (f <$> x).runOn s = (f <$> (x.runOn s).1, (x.runOn s).2) := by
  rw [← bind_pure_comp, runOn_bind]
  rcases x.runOn s with ⟨_ | _, _⟩ <;> rfl

theorem runOn_bind_ok {x : Work S α} {s t : S} {a : α} (h : x.runOn s = (.ok a, t))
    (f : α → Work S β) : (x >>= f).runOn s = (f a).runOn t := by
  rw [runOn_bind, h]

theorem runOn_bind_error {x : Work S α} {s t : S} {e : FaultRef} (h : x.runOn s = (.error e, t))
    (f : α → Work S β) : (x >>= f).runOn s = (.error e, t) := by
  rw [runOn_bind, h]

theorem runOn_bind_eq_ok {x : Work S α} {f : α → Work S β} {s u : S} {b : β} :
    (x >>= f).runOn s = (.ok b, u) ↔
      ∃ a t, x.runOn s = (.ok a, t) ∧ (f a).runOn t = (.ok b, u) := by
  rw [runOn_bind]
  constructor
  · intro h
    rcases hx : x.runOn s with ⟨e | a, t⟩
    · rw [hx] at h
      cases h
    · rw [hx] at h
      exact ⟨a, t, rfl, h⟩
  · rintro ⟨a, t, hx, h⟩
    rw [hx]
    exact h

theorem runOn_bind_eq_error {x : Work S α} {f : α → Work S β} {s u : S} {e : FaultRef} :
    (x >>= f).runOn s = (.error e, u) ↔
      x.runOn s = (.error e, u) ∨
        ∃ a t, x.runOn s = (.ok a, t) ∧ (f a).runOn t = (.error e, u) := by
  rw [runOn_bind]
  constructor
  · intro h
    rcases hx : x.runOn s with ⟨e' | a, t⟩
    · rw [hx] at h
      cases h
      exact .inl rfl
    · rw [hx] at h
      exact .inr ⟨a, t, rfl, h⟩
  · rintro (hx | ⟨a, t, hx, h⟩)
    · rw [hx]
    · rw [hx]
      exact h

end Work

end Fallback
