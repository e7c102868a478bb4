import VerifierCI.Execution.CellClasses
import VerifierCI.Models.Validation

/-! # The evidence of a valid cell

A valid cell shows one outcome, and each of its repetitions has an attempt with
that outcome. The attempt is authoritative where there is an authoritative one,
and otherwise may still be active.
-/

namespace VerifierCI

open Python

def Outcome.toCell : Outcome → CellOutcome
  | .accept => .accept
  | .reject => .reject
  | .invalidEvaluation => .invalidEvaluation
  | .error => .error

/-- Selected attempts are authoritative where there is a choice, and usable. -/
structure Eligible (attempts : List EvaluationAttempt) (a : EvaluationAttempt) : Prop where
  mem : a ∈ attempts
  disposition : a.disposition = .authoritative ∨
    a.disposition = .active ∧ ∀ b ∈ attempts, b.disposition ≠ .authoritative

/-- The attempt a repetition with a grading outcome rests on. -/
structure Supports (attempts : List EvaluationAttempt) (outcome : Outcome)
    (a : EvaluationAttempt) : Prop extends Eligible attempts a where
  outcome_eq : a.outcome = some outcome
  validity : a.evaluationValidity = .valid

/-- An authoritative attempt is preferred where there is one; otherwise the latest is selected
unless it is stale or abandoned. -/
theorem reduceRepetition_eligible {attempts : List EvaluationAttempt} {result : RepetitionResult}
    (h : reduceRepetition attempts = .ok result) {a : EvaluationAttempt}
    (hselected : result.selected = some a) : Eligible attempts a := by
  unfold reduceRepetition at h
  split at h
  next first rest hfilter =>
    obtain ⟨best, hbest, hresult⟩ := bind_eq_ok.mp h
    obtain rfl := Except.ok.inj hresult
    obtain rfl := Option.some.inj hselected
    -- an authoritative attempt is selected from the filtered list
    have hmem := latest_mem hbest
    rw [← hfilter, List.mem_filter, decide_eq_true_eq] at hmem
    exact ⟨hmem.1, Or.inl hmem.2⟩
  next hfilter =>
    rw [List.filter_eq_nil_iff] at hfilter
    split at h
    next =>
      obtain rfl := Except.ok.inj h
      cases hselected
    next first rest =>
      obtain ⟨best, hbest, hresult⟩ := bind_eq_ok.mp h
      split at hresult
      next =>
        obtain rfl := Except.ok.inj hresult
        cases hselected
      next husable =>
        obtain rfl := Except.ok.inj hresult
        obtain rfl := Option.some.inj hselected
        -- The filter found none, so the latest of all attempts is selected if it can be used.
        have hnone : ∀ b ∈ first :: rest, b.disposition ≠ .authoritative := by
          intro b hb hdisposition
          exact hfilter b hb (decide_eq_true hdisposition)
        refine ⟨latest_mem hbest, Or.inr ⟨?_, hnone⟩⟩
        have hplain := hnone best (latest_mem hbest)
        rw [not_or] at husable
        cases hdisposition : best.disposition with
        | active => rfl
        | authoritative => exact absurd hdisposition hplain
        | stale => exact absurd hdisposition husable.1
        | abandoned => exact absurd hdisposition husable.2

/-- A valid verdict is a uniform one. Without any repetition it accepts. -/
theorem cellVerdict_valid {planned : Int} {outcomes : List RepetitionOutcome} {codes : List String}
    (hlength : outcomes.length = planned.toNat)
    (hvalid : (cellVerdict planned outcomes codes).2.1 = .valid) :
    ∃ outcome : Outcome, (cellVerdict planned outcomes codes).1 = outcome.toCell ∧
      (outcome = .accept ∨ outcome = .reject) ∧ (outcome = .reject → 1 ≤ planned) ∧
      Uniform outcomes outcome := by
  unfold cellVerdict at hvalid ⊢
  dsimp only at hvalid ⊢
  split_ifs at hvalid ⊢ with hmissing haccept hreject
  · rw [completed_eq hlength hmissing] at haccept
    exact ⟨.accept, rfl, Or.inl rfl, by simp, uniform_iff_count.mp haccept⟩
  · rw [completed_eq hlength hmissing] at haccept hreject
    refine ⟨.reject, rfl, Or.inr rfl, ?_, uniform_iff_count.mp hreject⟩
    intro _
    -- no repetition at all would have been accepted
    by_contra hnone
    have hnil : outcomes = [] := List.eq_nil_of_length_eq_zero (by omega)
    exact haccept (by rw [hnil]; rfl)

section Evidence

variable {planned : Int} {jobRepetition : String → Option Int} {attempts : List EvaluationAttempt}
  {header : CellHeader} {cell : AcceptanceCell}

/-- As long as every repetition has a selected attempt, the list of ids is indexed by
repetition. -/
theorem selectedAttemptIds_getElem? {results : List RepetitionResult}
    (hall : ∀ result ∈ results, result.selected.isSome) (rep : Nat) :
    (results.filterMap fun result => result.selected.map EvaluationAttempt.attemptId)[rep]? =
      results[rep]?.bind fun result => result.selected.map EvaluationAttempt.attemptId := by
  induction results generalizing rep with
  | nil => rfl
  | cons result rest ih =>
      obtain ⟨hhead, htail⟩ := List.forall_mem_cons.mp hall
      obtain ⟨a, ha⟩ := Option.isSome_iff_exists.mp hhead
      rw [List.filterMap_cons_some (by rw [ha]; rfl)]
      cases rep with
      | zero => simp [ha]
      | succ rep =>
          rw [List.getElem?_cons_succ, List.getElem?_cons_succ]
          exact ih htail rep

/-- Valid cells rest on valid attempts of their outcome, one for each repetition,
authoritative ones where any of the repetition's attempts is authoritative. -/
theorem valid_cell_evidence (hvalidated : ∀ a ∈ attempts, validateAttempt a = .ok ())
    (hcell : aggregateCell header planned attempts jobRepetition = .ok cell)
    (hvalid : cell.evaluationValidity = .valid) :
    ∃ outcome : Outcome, cell.outcome = outcome.toCell ∧
      (outcome = .accept ∨ outcome = .reject) ∧ (outcome = .reject → 1 ≤ planned) ∧
      ∀ rep : Nat, (rep : Int) < planned →
        ∃ a, Supports (mappedTo jobRepetition attempts rep) outcome a ∧
          cell.selectedAttemptIds[rep]? = some a.attemptId := by
  obtain ⟨results, hresults, hcell⟩ := bind_eq_ok.mp hcell
  obtain rfl := Except.ok.inj hcell
  obtain ⟨hlength, hreduce⟩ := forall₂_range (mapM_eq_ok.mp hresults)
  have houtcomes : (results.map RepetitionResult.outcome).length = planned.toNat := by
    rw [List.length_map, hlength]
  obtain ⟨outcome, heq, hdecided, hpos, huniform⟩ := cellVerdict_valid houtcomes hvalid
  -- every repetition has selected an attempt with the outcome of the cell
  have hselected :
      ∀ result ∈ results, ∃ a, result.selected = some a ∧ a.outcome = some outcome := by
    intro result hmem
    have hresult := huniform _ (List.mem_map_of_mem hmem)
    exact Option.bind_eq_some_iff.mp (orPending_eq_completed.mp hresult)
  refine ⟨outcome, heq, hdecided, hpos, ?_⟩
  intro rep hrep
  have hlt : rep < results.length := by omega
  have hresult : results[rep]? = some results[rep] := List.getElem?_eq_getElem hlt
  obtain ⟨a, ha, houtcome⟩ := hselected _ (List.mem_of_getElem? hresult)
  have heligible := reduceRepetition_eligible (hreduce rep _ hresult) ha
  rw [attemptsAt_eq_mappedTo hrep] at heligible
  have hcoherent :=
    (validateAttempt_ok_iff.mp (hvalidated a (List.mem_of_mem_filter heligible.mem))).2
  have hvalidity : a.evaluationValidity = .valid := by
    apply hcoherent.valid_of_decided
    rcases hdecided with rfl | rfl
    · exact Or.inl houtcome
    · exact Or.inr houtcome
  refine ⟨a, ⟨heligible, houtcome, hvalidity⟩, ?_⟩
  have hall : ∀ result ∈ results, result.selected.isSome := by
    intro result hmem
    obtain ⟨b, hb, _⟩ := hselected result hmem
    rw [hb]
    rfl
  have hids := selectedAttemptIds_getElem? hall rep
  rw [hresult, Option.bind_some, ha] at hids
  exact hids

end Evidence

/-- The only attempt of the repetition, still active, with a grading outcome. -/
def stillActive : EvaluationAttempt :=
  { acceptingAttempt "active" "zero" 1 with disposition := .active }

/-- The cell accepts on an attempt that is still active, since the repetition has no
authoritative one. -/
theorem valid_cell_evidence_active :
    ∃ outcome : Outcome, CellOutcome.accept = outcome.toCell ∧
      (outcome = .accept ∨ outcome = .reject) ∧ (outcome = .reject → (1 : Int) ≤ 1) ∧
      ∀ rep : Nat, (rep : Int) < 1 →
        ∃ a, Supports (mappedTo mixedRepetition [stillActive] rep) outcome a ∧
          ["active"][rep]? = some a.attemptId := by
  have hvalidated : ∀ a ∈ [stillActive], validateAttempt a = .ok () := by
    simp only [List.forall_mem_singleton]
    decide
  have hcell : aggregateCell mixedHeader 1 [stillActive] mixedRepetition =
      .ok (assembleCell mixedHeader 1 [] [⟨some stillActive, []⟩]) := by
    rfl
  exact valid_cell_evidence hvalidated hcell rfl

/-- A cell can be valid without an authoritative attempt: on an active one, and on none at all
when no repetition is planned. -/
theorem valid_cell_without_authority :
    validateAttempt stillActive = .ok () ∧ stillActive.disposition = .active ∧
      (∃ cell, aggregateCell mixedHeader 1 [stillActive] mixedRepetition = .ok cell ∧
        cell.outcome = .accept ∧ cell.evaluationValidity = .valid) ∧
      ∃ cell, aggregateCell mixedHeader 0 [] mixedRepetition = .ok cell ∧
        cell.outcome = .accept ∧ cell.evaluationValidity = .valid :=
  ⟨by decide, rfl, ⟨_, rfl, rfl, rfl⟩, ⟨_, rfl, rfl, rfl⟩⟩

end VerifierCI
