import VerifierCI.Execution.CellClasses
import VerifierCI.Python.Lists

/-! # Accounting for attempts

A cell lists every attempt it was given once, as selected or as excluded. The
cell exists unless the scan for the latest attempt meets start times that cannot
be compared.
-/

namespace VerifierCI

open Python

/-! ## One repetition -/

section Repetition

variable {attempts : List EvaluationAttempt} {result : RepetitionResult}

/-- The attempts other than the selected one are excluded. This holds in every branch, also in
those that select no attempt. -/
theorem reduceRepetition_excluded (h : reduceRepetition attempts = .ok result) :
    result.excluded = (attempts.filter fun attempt =>
      result.selected.map EvaluationAttempt.attemptId ≠ some attempt.attemptId).map
        EvaluationAttempt.attemptId := by
  have hothers : ∀ selected : EvaluationAttempt, othersThan selected attempts =
      (attempts.filter fun attempt => some selected.attemptId ≠ some attempt.attemptId).map
        EvaluationAttempt.attemptId := by
    intro selected
    simp only [othersThan, ne_eq, Option.some.injEq, eq_comm]
  unfold reduceRepetition at h
  split at h
  next first rest hfilter =>
    obtain ⟨best, _, hresult⟩ := bind_eq_ok.mp h
    obtain rfl := Except.ok.inj hresult
    exact hothers best
  next hfilter =>
    split at h
    next =>
      obtain rfl := Except.ok.inj h
      rfl
    next first rest =>
      obtain ⟨best, _, hresult⟩ := bind_eq_ok.mp h
      split at hresult
      next =>
        obtain rfl := Except.ok.inj hresult
        simp
      next =>
        obtain rfl := Except.ok.inj hresult
        exact hothers best

/-- Selected and excluded, the attempts of a repetition are all there. Nothing is counted twice,
since the ids of the attempts are distinct. -/
theorem reduceRepetition_accounts (hids : (attempts.map EvaluationAttempt.attemptId).Nodup)
    (h : reduceRepetition attempts = .ok result) :
    ((result.selected.map EvaluationAttempt.attemptId).toList ++ result.excluded).Perm
      (attempts.map EvaluationAttempt.attemptId) := by
  have hspec := reduceRepetition_spec h hids
  have hexcluded : result.excluded.Nodup := by
    rw [reduceRepetition_excluded h]
    exact hids.sublist (List.filter_sublist.map EvaluationAttempt.attemptId)
  cases hselected : result.selected with
  | none =>
      rw [Option.map_none, Option.toList_none, List.nil_append]
      refine (List.perm_ext_iff_of_nodup hexcluded hids).mpr fun id => ?_
      rw [hspec.excluded, hselected, List.mem_map]
      simp
  | some best =>
      have hbest := ((hspec.selected best).mp hselected).mem
      rw [Option.map_some, Option.toList_some, List.singleton_append]
      refine (List.perm_ext_iff_of_nodup (List.nodup_cons.mpr ⟨?_, hexcluded⟩) hids).mpr ?_
      · rw [hspec.excluded, hselected]
        rintro ⟨b, hb, hid, hne⟩
        exact hne (congrArg some (List.inj_on_of_nodup_map hids hb hbest hid).symm)
      · intro id
        rw [List.mem_cons, hspec.excluded, hselected, List.mem_map]
        constructor
        · rintro (rfl | ⟨b, hb, hid, _⟩)
          · exact ⟨best, hbest, rfl⟩
          · exact ⟨b, hb, hid⟩
        · rintro ⟨b, hb, rfl⟩
          by_cases heq : b = best
          · exact Or.inl (congrArg EvaluationAttempt.attemptId heq)
          · exact Or.inr ⟨b, hb, rfl, fun hsome => heq (Option.some.inj hsome).symm⟩

end Repetition

/-! ## Cells -/

/-- Every attempt is listed once, and those selected are of different
repetitions, in their order. -/
structure Accounted (planned : Int) (jobRepetition : String → Option Int)
    (attempts : List EvaluationAttempt) (cell : AcceptanceCell) : Prop where
  perm : (cell.selectedAttemptIds ++ cell.excludedAttemptIds).Perm
    (attempts.map EvaluationAttempt.attemptId)
  nodup : (cell.selectedAttemptIds ++ cell.excludedAttemptIds).Nodup
  ordered : ∃ reps : List Nat, reps.Pairwise (· < ·) ∧
    List.Forall₂ (fun (rep : Nat) id => (rep : Int) < planned ∧
      ∃ attempt ∈ attempts, attempt.attemptId = id ∧
        jobRepetition attempt.jobId = some (rep : Int)) reps cell.selectedAttemptIds

section Cell

variable {planned : Int} {jobRepetition : String → Option Int} {attempts : List EvaluationAttempt}
  {header : CellHeader}

/-- The attempts of no repetition and those of each make up all attempts. -/
theorem attempts_perm (hids : (attempts.map EvaluationAttempt.attemptId).Nodup) :
    (unmappedAttempts planned jobRepetition attempts ++ (List.range planned.toNat).flatMap
      (attemptsAt planned jobRepetition attempts)).Perm attempts :=
  groups_perm hids.of_map fun _ _ rep h => by
    have hlt := repetitionOf_lt h
    omega

/-- The attempts that count for no repetition and those of each planned repetition make up the
list, and each repetition accounts for its own. -/
theorem assembleCell_accounted (hids : (attempts.map EvaluationAttempt.attemptId).Nodup)
    {results : List RepetitionResult}
    (hresults : List.Forall₂ (fun rep result =>
      reduceRepetition (attemptsAt planned jobRepetition attempts rep) = .ok result)
        (List.range planned.toNat) results) :
    Accounted planned jobRepetition attempts
      (assembleCell header planned (unmappedAttempts planned jobRepetition attempts) results) := by
  have hperm : (results.filterMap (fun result => result.selected.map EvaluationAttempt.attemptId) ++
      ((unmappedAttempts planned jobRepetition attempts).map EvaluationAttempt.attemptId ++
        results.flatMap RepetitionResult.excluded)).Perm
      (attempts.map EvaluationAttempt.attemptId) := by
    have hgroups : (results.flatMap fun result =>
        (result.selected.map EvaluationAttempt.attemptId).toList ++ result.excluded).Perm
        ((List.range planned.toNat).flatMap fun rep =>
          (attemptsAt planned jobRepetition attempts rep).map EvaluationAttempt.attemptId) :=
      flatMap_perm_of_forall₂ (hresults.flip.imp fun result rep h =>
        reduceRepetition_accounts (attemptsAt_ids_nodup hids rep) h)
    rw [List.filterMap_eq_flatMap_toList]
    refine (List.perm_append_comm_assoc _ _ _).trans ?_
    refine (((List.flatMap_append_perm results _ _).trans hgroups).append_left _).trans ?_
    rw [← List.map_flatMap, ← List.map_append]
    exact (attempts_perm hids).map _
  refine ⟨hperm, hperm.nodup_iff.mpr hids, ?_⟩
  obtain ⟨reps, hreps, hselected⟩ := filterMap_of_forall₂
    (f := fun result => result.selected.map EvaluationAttempt.attemptId) hresults
  refine ⟨reps, List.pairwise_lt_range.sublist hreps, hselected.imp ?_⟩
  rintro rep id ⟨result, hresult, hid⟩
  obtain ⟨best, hbest, rfl⟩ := Option.map_eq_some_iff.mp hid
  have hspec := reduceRepetition_spec hresult (attemptsAt_ids_nodup hids rep)
  obtain ⟨hmem, hrep⟩ := List.mem_filter.mp ((hspec.selected best).mp hbest).mem
  have hrep := of_decide_eq_true hrep
  have hplanned := repetitionOf_lt hrep
  exact ⟨hplanned, best, hmem, rfl, (repetitionOf_eq_some_iff hplanned).mp hrep⟩

/-- Attempts are accounted for exactly if those competing for a repetition can be scanned for
the latest. The scan is the only thing that can fail, and what does not fail drops nothing. -/
theorem accounted_iff (hids : (attempts.map EvaluationAttempt.attemptId).Nodup) :
    (∃ cell, aggregateCell header planned attempts jobRepetition = .ok cell ∧
      Accounted planned jobRepetition attempts cell) ↔
        ∀ rep : Nat, (rep : Int) < planned →
          Scannable (candidates (mappedTo jobRepetition attempts rep)) := by
  refine Iff.trans ?_ (aggregateCell_ok_iff header hids)
  constructor
  · rintro ⟨cell, hcell, _⟩
    exact ⟨cell, hcell⟩
  · rintro ⟨cell, hcell⟩
    obtain ⟨results, hresults, heq⟩ := bind_eq_ok.mp hcell
    obtain rfl := Except.ok.inj heq
    exact ⟨_, hcell, assembleCell_accounted hids (mapM_eq_ok.mp hresults)⟩

end Cell

/-- Each of the two repetitions has one attempt, so no start times are compared. -/
theorem mixedAttempts_accounted :
    ∃ cell, aggregateCell mixedHeader 2 mixedAttempts mixedRepetition = .ok cell ∧
      Accounted 2 mixedRepetition mixedAttempts cell := by
  refine (accounted_iff (by decide)).mpr ?_
  intro rep _
  exact scannable_of_comparable
    ((mixedAttempts_comparable rep).sublist (candidates_sublist _))

/-- Two attempts of one lease generation, only the first of which knows its offset. -/
def unevenAttempts : List EvaluationAttempt :=
  [acceptingAttempt "first" "zero" 1,
    { acceptingAttempt "second" "zero" 1 with startedAt := naiveStart }]

/-- No cell accounts for them: the two attempts have one fence, and their start times have no
order. -/
theorem unequalStarts_unaccounted :
    (unevenAttempts.map EvaluationAttempt.attemptId).Nodup ∧
      aggregateCell mixedHeader 1 unevenAttempts mixedRepetition = .error .typeError ∧
        ¬ ∃ cell, aggregateCell mixedHeader 1 unevenAttempts mixedRepetition = .ok cell ∧
          Accounted 1 mixedRepetition unevenAttempts cell := by
  have hraises :
      aggregateCell mixedHeader 1 unevenAttempts mixedRepetition = .error .typeError := by
    decide
  refine ⟨by decide, hraises, ?_⟩
  rintro ⟨cell, hcell, _⟩
  rw [hraises] at hcell
  cases hcell

end VerifierCI
