import Fallback.Proofs.Failure

/-!
How an evaluation is broken off.

`Position.Escapes` lists the ways in which a visit is broken off by what it does itself: the frame
refuses the node, a decision breaks off, or the debug switch cannot tell its truth. By
`runOn_evaluate_eq_error_iff` an evaluation ends with a fault exactly if one of the visits that it
reaches is broken off in one of these ways, and it ends with that fault and in that world: nothing
between the visit and the root stops it, not even an operator that falls back.
-/
namespace Fallback

open Relation (ReflTransGen)

variable {σ : Type} {host : Host σ}

namespace Position

/-- The visit is broken off with a fault, in a world, by what it does itself. -/
inductive Escapes (host : Host σ) (p : Position σ) (e : FaultRef) (w : World σ) : Prop
  | refused {refusal} (push : p.run.frame.push p.value = .error refusal)
      (reported : (Act.ofAttempt (Attempt.malformed (p.run.world.store.placeOf p.value)
        refusal.message) : Act σ Unit).runOn p.run.world = (.error e, w))
  | entering {f} (push : p.run.frame.push p.value = .ok f)
      (failed : (truthTest host f.debug).runOn p.run.world = (.error e, w))
  | deciding {os r} (progress : p.Progress host os r) (breaks : p.form.Breaks host r os e w)
  | leaving {o r} (settled : p.Settles host o r)
      (failed : (truthTest host r.frame.debug).runOn (r.noted p.value o) = (.error e, w))

variable {p : Position σ} {e : FaultRef} {w : World σ}

theorem BreaksOff.escapes {r : Run σ} (h : p.BreaksOff host e r) (sound : p.IsSound)
    (hk : host.KeepsTrees) : p.Escapes host e r.world := by
  cases h with
  | entering h =>
    obtain opened | ⟨f, push, failed, -⟩ := enterNode_eq_error_iff.1 h
    · obtain ⟨refusal, push, refused⟩ := openNode_eq_error opened
      cases refused
      exact .refused push rfl
    · exact .entering push failed
  | deciding progress h =>
    obtain ⟨-, le⟩ := progress.push_eq sound hk
    have fit := sound.tree.whole.fit.mono le
    exact .deciding progress (Form.breaks_of_next fit progress.known h)
  | leaving settled h =>
    have push := settled.push_eq sound hk
    exact .leaving settled ((leaveNode_eq_error_iff push).1 h).1

theorem Escapes.breaksOff (h : p.Escapes host e w) (sound : p.IsSound) (hk : host.KeepsTrees) :
    ∃ r, r.world = w ∧ p.BreaksOff host e r := by
  cases h with
  | refused push reported =>
    refine ⟨⟨p.run.frame, w⟩, rfl, .entering (enterNode_eq_error_iff.2 (.inl ?_))⟩
    rw [runOn_openNode_of_refused push]
    cases reported
    rfl
  | entering push failed =>
    exact ⟨⟨_, w⟩, rfl, .entering (enterNode_eq_error_iff.2 (.inr ⟨_, push, failed, rfl⟩))⟩
  | deciding progress breaks => exact ⟨_, rfl, .deciding progress breaks.next⟩
  | leaving settled failed =>
    have push := settled.push_eq sound hk
    exact ⟨⟨_, w⟩, rfl, .leaving settled ((leaveNode_eq_error_iff push).2 ⟨failed, rfl⟩)⟩

end Position

/-- An evaluation ends with a fault exactly if a visit that it reaches is broken off with that fault
by what it does itself, and then the evaluation leaves the world as it is at that moment. -/
theorem runOn_evaluate_eq_error_iff (hk : host.KeepsTrees) {q : Request} {root : NodeRef}
    {w w' : World σ} (tree : w.store.IsTree root) {e : FaultRef} :
    (evaluate host q (.node root)).runOn w = (.error e, w') ↔
      ∃ p, (Position.start q root w).Reaches host p ∧ p.Escapes host e w' := by
  have sound := Position.isSound_start q tree
  rw [Position.runOn_evaluate]
  constructor
  · intro h
    rcases ending : (Position.start q root w).ending host with ⟨result, r⟩
    rw [ending] at h
    cases h
    obtain ⟨p, reached, broken⟩ := (Position.ending_eq_error_iff_reaches sound hk).1 ending
    exact ⟨p, reached, broken.escapes (Position.isSound_of_reaches reached sound hk) hk⟩
  · rintro ⟨p, reached, escapes⟩
    obtain ⟨r, rfl, broken⟩ :=
      escapes.breaksOff (Position.isSound_of_reaches reached sound hk) hk
    rw [(Position.ending_eq_error_iff_reaches sound hk).2 ⟨p, reached, broken⟩]

end Fallback
