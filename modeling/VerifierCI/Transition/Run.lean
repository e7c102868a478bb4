import Mathlib.Logic.Relation

/-! # Runs of a deterministic transition function

A run feeds a list of events to a step function. Runs whose events must meet
a condition on the state they are taken in are described by `Admits`; the
rules below turn facts about one step into facts about every run.
-/

namespace Transition

universe uState uEvent

variable {σ : Type uState} {ε : Type uEvent} (step : σ → ε → σ)

def run (start : σ) (events : List ε) : σ :=
  events.foldl step start

@[simp] theorem run_nil (start : σ) : run step start [] = start := rfl

@[simp] theorem run_cons (start : σ) (event : ε) (rest : List ε) :
    run step start (event :: rest) = run step (step start event) rest := rfl

@[simp] theorem run_append (start : σ) (first second : List ε) :
    run step start (first ++ second) = run step (run step start first) second := by
  simp [run]

/-- Every event of the list is allowed in the state it is taken in. -/
def Admits (allowed : σ → ε → Prop) : σ → List ε → Prop
  | _, [] => True
  | start, event :: rest => allowed start event ∧ Admits allowed (step start event) rest

section Rules

variable {step} {allowed : σ → ε → Prop}

theorem Admits.append {start : σ} {first second : List ε}
    (h : Admits step allowed start (first ++ second)) :
    Admits step allowed start first ∧ Admits step allowed (run step start first) second := by
  induction first generalizing start with
  | nil => exact ⟨trivial, h⟩
  | cons event rest ih =>
      obtain ⟨hevent, hrest⟩ := h
      exact ⟨⟨hevent, (ih hrest).1⟩, (ih hrest).2⟩

theorem Admits.of_append {start : σ} {first second : List ε}
    (hfirst : Admits step allowed start first)
    (hsecond : Admits step allowed (run step start first) second) :
    Admits step allowed start (first ++ second) := by
  induction first generalizing start with
  | nil => exact hsecond
  | cons event rest ih => exact ⟨hfirst.1, ih hfirst.2 hsecond⟩

/-- A run is admitted when each of its events is, wherever it stands. -/
theorem admits_iff_forall {start : σ} {events : List ε} :
    Admits step allowed start events ↔ ∀ first event last, events = first ++ event :: last →
      allowed (run step start first) event := by
  induction events generalizing start with
  | nil => exact iff_of_true trivial fun first event last hsplit => by simp at hsplit
  | cons head rest ih =>
      constructor
      · rintro ⟨hhead, hrest⟩ first event last hsplit
        cases first with
        | nil =>
            obtain ⟨rfl, rfl⟩ := List.cons.inj hsplit
            exact hhead
        | cons other first =>
            obtain ⟨rfl, htail⟩ := List.cons.inj hsplit
            exact ih.mp hrest first event last htail
      · intro hall
        refine ⟨hall [] head rest rfl, ih.mpr ?_⟩
        intro first event last hsplit
        exact hall (head :: first) event last (congrArg (head :: ·) hsplit)

/-- What one allowed step preserves, every admitted run preserves. -/
theorem Admits.invariant (inv : σ → Prop)
    (hstep : ∀ state event, inv state → allowed state event → inv (step state event))
    {start : σ} {events : List ε} (hadmits : Admits step allowed start events)
    (hstart : inv start) : inv (run step start events) := by
  induction events generalizing start with
  | nil => exact hstart
  | cons event rest ih => exact ih hadmits.2 (hstep start event hstart hadmits.1)

/-- A condition that implies another one wherever an invariant holds, and keeps
the invariant, admits no run the other does not. -/
theorem Admits.of_invariant {allowed' : σ → ε → Prop} (inv : σ → Prop)
    (hinv : ∀ state event, inv state → allowed state event → inv (step state event))
    (himp : ∀ state event, inv state → allowed state event → allowed' state event)
    {start : σ} {events : List ε} (hadmits : Admits step allowed start events)
    (hstart : inv start) : Admits step allowed' start events := by
  induction events generalizing start with
  | nil => exact trivial
  | cons event rest ih =>
      obtain ⟨hevent, hrest⟩ := hadmits
      exact ⟨himp start event hstart hevent, ih hrest (hinv start event hstart hevent)⟩

/-- Two conditions that agree wherever an invariant of the steps holds admit
the same runs. -/
theorem Admits.congr {allowed' : σ → ε → Prop} (inv : σ → Prop)
    (hinv : ∀ state event, inv state → inv (step state event))
    (hiff : ∀ state event, inv state → (allowed state event ↔ allowed' state event))
    {start : σ} (hstart : inv start) (events : List ε) :
    Admits step allowed start events ↔ Admits step allowed' start events := by
  induction events generalizing start with
  | nil => exact Iff.rfl
  | cons event rest ih =>
      exact and_congr (hiff start event hstart) (ih (hinv start event hstart))

/-- Two conditions that agree wherever an invariant of the admitted steps holds
admit the same runs. -/
theorem Admits.congr_of_invariant {allowed' : σ → ε → Prop} (inv : σ → Prop)
    (hinv : ∀ state event, inv state → allowed state event → inv (step state event))
    (hiff : ∀ state event, inv state → (allowed state event ↔ allowed' state event))
    {start : σ} (hstart : inv start) (events : List ε) :
    Admits step allowed start events ↔ Admits step allowed' start events := by
  constructor
  · intro hadmits
    exact hadmits.of_invariant inv hinv (fun state event h => (hiff state event h).mp) hstart
  · intro hadmits
    apply hadmits.of_invariant inv _ (fun state event h => (hiff state event h).mpr) hstart
    intro state event h hallowed
    exact hinv state event h ((hiff state event h).mpr hallowed)

/-- The unguarded form: an invariant of every step is an invariant of every run. -/
theorem run_invariant (inv : σ → Prop)
    (hstep : ∀ state event, inv state → inv (step state event))
    {start : σ} (hstart : inv start) (events : List ε) : inv (run step start events) := by
  induction events generalizing start with
  | nil => exact hstart
  | cons event rest ih => exact ih (hstep start event hstart)

/-- If some round of events leaves less work wherever an invariant holds and work is left,
some run leaves none, and takes no more rounds than there was work. -/
theorem exists_run_of_variant (inv : σ → Prop) (variant : σ → Nat) (cost : Nat)
    (hround : ∀ state, inv state → 0 < variant state → ∃ round, Admits step allowed state round ∧
      round.length ≤ cost ∧ inv (run step state round) ∧
        variant (run step state round) < variant state)
    {start : σ} (hstart : inv start) :
    ∃ events, Admits step allowed start events ∧ events.length ≤ cost * variant start ∧
      inv (run step start events) ∧ variant (run step start events) = 0 := by
  induction hwork : variant start using Nat.strongRecOn generalizing start with
  | ind work ih =>
      subst hwork
      rcases Nat.eq_zero_or_pos (variant start) with hnone | hleft
      · exact ⟨[], trivial, Nat.zero_le _, hstart, hnone⟩
      · obtain ⟨round, hadmits, hlength, hinv, hless⟩ := hround start hstart hleft
        obtain ⟨rest, hrest, hrestLength, hdone, hzero⟩ := ih _ hless hinv rfl
        refine ⟨round ++ rest, hadmits.of_append hrest, ?_, ?_, ?_⟩
        · have hcost : cost * (variant (run step start round) + 1) ≤ cost * variant start :=
            Nat.mul_le_mul_left cost hless
          rw [List.length_append]
          rw [Nat.mul_succ] at hcost
          omega
        · rwa [run_append]
        · rwa [run_append]

end Rules

end Transition
