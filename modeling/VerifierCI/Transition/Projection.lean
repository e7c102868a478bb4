import VerifierCI.Transition.Run

/-! # Runs seen from one part of the state

A part of the state is what a projection keeps of it. If every event either
acts on the part as some event acts on it alone, or leaves it as it is, then a
whole run projects to the run of the events that are seen there. What the part
sees of an event may depend on the state the event is taken in.
-/

namespace Transition

universe uState uEvent uPart uSeen

variable {σ : Type uState} {ε : Type uEvent} {τ : Type uPart} {δ : Type uSeen}

/-- The events of a run as they are seen from a part. -/
def seen (step : σ → ε → σ) (sees : σ → ε → Option δ) : σ → List ε → List δ
  | _, [] => []
  | state, event :: rest => (sees state event).toList ++ seen step sees (step state event) rest

section Projection

variable {step : σ → ε → σ} {partStep : τ → δ → τ} {part : σ → τ}
  {sees : σ → ε → Option δ}

/-- One event, seen from the part: it acts there as what is seen of it. -/
def Projects (step : σ → ε → σ) (partStep : τ → δ → τ) (part : σ → τ)
    (sees : σ → ε → Option δ) (state : σ) (event : ε) : Prop :=
  part (step state event) = run partStep (part state) (sees state event).toList

/-- A run projects to the run of what is seen of it. -/
theorem Admits.project {allowed : σ → ε → Prop} (inv : σ → Prop)
    (hinv : ∀ state event, inv state → allowed state event → inv (step state event))
    (hstep : ∀ state event, inv state → allowed state event →
      Projects step partStep part sees state event)
    {start : σ} {events : List ε} (hadmits : Admits step allowed start events)
    (hstart : inv start) :
    part (run step start events) =
      run partStep (part start) (seen step sees start events) := by
  induction events generalizing start with
  | nil => rfl
  | cons event rest ih =>
      obtain ⟨hevent, hrest⟩ := hadmits
      rw [run_cons, ih hrest (hinv start event hstart hevent), seen, run_append,
        hstep start event hstart hevent]

/-- An invariant may speak of what has been seen so far. -/
theorem Admits.invariant_seen {allowed : σ → ε → Prop} (inv : List δ → σ → Prop)
    (hstep : ∀ history state event, inv history state → allowed state event →
      inv (history ++ (sees state event).toList) (step state event))
    {start : σ} {events : List ε} (hadmits : Admits step allowed start events)
    {history : List δ} (hstart : inv history start) :
    inv (history ++ seen step sees start events) (run step start events) := by
  induction events generalizing start history with
  | nil => simpa [seen] using hstart
  | cons event rest ih =>
      obtain ⟨hevent, hrest⟩ := hadmits
      rw [seen, ← List.append_assoc]
      exact ih hrest (hstep history start event hstart hevent)

end Projection

end Transition
