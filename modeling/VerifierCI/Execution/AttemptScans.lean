import VerifierCI.Execution.Reducer

/-! # Scans of the reducer

The reducer looks for the latest attempt of a repetition with one comparison per
attempt. A comparison raises on start times of which only one knows its offset,
so which attempts can be scanned depends on their order.
-/

namespace VerifierCI

open Python

/-! ## Scans for the latest attempt -/

/-- The attempt later than all others. -/
structure Greatest (attempts : List EvaluationAttempt) (best : EvaluationAttempt) : Prop where
  mem : best ∈ attempts
  later : ∀ other ∈ attempts, other ≠ best → Later best other

theorem Greatest.eq {attempts : List EvaluationAttempt} {a b : EvaluationAttempt}
    (ha : Greatest attempts a) (hb : Greatest attempts b) : a = b := by
  by_contra hne
  exact Later.irrefl a ((ha.later b hb.mem (Ne.symm hne)).trans (hb.later a ha.mem hne))

/-- Every attempt can be compared with the latest of those before it. -/
def Scannable (attempts : List EvaluationAttempt) : Prop :=
  ∀ before attempt after best, attempts = before ++ attempt :: after → Greatest before best →
    Comparable best attempt

theorem scannable_singleton (attempt : EvaluationAttempt) : Scannable [attempt] := by
  intro before other after best heq hbest
  cases before with
  | nil => cases hbest.mem
  | cons first rest => simp at heq

/-- A list can be scanned if its front can and the last attempt can be compared with the
greatest of that front. -/
theorem scannable_append_singleton {attempts : List EvaluationAttempt} {last : EvaluationAttempt} :
    Scannable (attempts ++ [last]) ↔
      Scannable attempts ∧ ∀ best, Greatest attempts best → Comparable best last := by
  constructor
  · intro h
    refine ⟨?_, ?_⟩
    · intro before attempt after best heq
      refine h before attempt (after ++ [last]) best ?_
      rw [heq, List.append_assoc, List.cons_append]
    · intro best
      exact h attempts last [] best rfl
  · rintro ⟨hattempts, hlast⟩ before attempt after best heq hbest
    rcases List.eq_nil_or_concat after with rfl | ⟨front, final, rfl⟩
    · obtain ⟨rfl, hsame⟩ := List.append_inj' heq rfl
      obtain rfl := List.singleton_inj.mp hsame
      exact hlast best hbest
    · have heq' : attempts ++ [last] = (before ++ attempt :: front) ++ [final] := by
        rw [heq, List.concat_eq_append, List.append_assoc, List.cons_append]
      exact hattempts before attempt front best (List.append_inj' heq' rfl).1 hbest

theorem scannable_of_comparable {attempts : List EvaluationAttempt}
    (h : attempts.Pairwise Comparable) : Scannable attempts := by
  rintro before attempt after best rfl hbest
  exact (List.pairwise_append.mp h).2.2 best hbest.mem attempt List.mem_cons_self

theorem isLater_ok_iff {a b : EvaluationAttempt} :
    (∃ later, isLater a b = .ok later) ↔ Comparable b a := by
  refine ⟨?_, isLater_ok⟩
  rintro ⟨later, hlater⟩ hfence
  by_contra hzone
  rw [isLater, if_neg (not_not.mpr hfence.symm), if_pos (Ne.symm hzone)] at hlater
  cases hlater

/-- The scan carries nothing over but the latest attempt so far. -/
theorem latest_append (best : EvaluationAttempt) (front back : List EvaluationAttempt) :
    latest best (front ++ back) = latest best front >>= fun middle => latest middle back := by
  induction front generalizing best with
  | nil => rfl
  | cons attempt rest ih =>
      rw [List.cons_append, latest, latest, bind_assoc]
      refine congrArg _ (funext fun later => ?_)
      cases later <;> exact ih _

/-- What the scan ends with is later than all others; that is unique, since ids differ. -/
theorem latest_greatest {best selected : EvaluationAttempt} {rest : List EvaluationAttempt}
    (hids : ((best :: rest).map EvaluationAttempt.attemptId).Nodup)
    (h : latest best rest = .ok selected) : Greatest (best :: rest) selected :=
  ⟨latest_mem h, latest_max h hids⟩

/-- The scan ends exactly on attempts that can be scanned. -/
theorem latest_ok_iff {best : EvaluationAttempt} {rest : List EvaluationAttempt}
    (hids : ((best :: rest).map EvaluationAttempt.attemptId).Nodup) :
    (∃ selected, latest best rest = .ok selected) ↔ Scannable (best :: rest) := by
  induction rest using List.reverseRecOn with
  | nil => exact ⟨fun _ => scannable_singleton best, fun _ => ⟨best, rfl⟩⟩
  | append_singleton front last ih =>
      have hfront : ((best :: front).map EvaluationAttempt.attemptId).Nodup := by
        refine hids.sublist ?_
        exact ((List.sublist_append_left front [last]).cons_cons best).map _
      rw [← List.cons_append, scannable_append_singleton, ← ih hfront]
      simp only [latest_append, bind_eq_ok]
      constructor
      · rintro ⟨selected, middle, hmiddle, hlast⟩
        refine ⟨⟨middle, hmiddle⟩, ?_⟩
        intro greatest hgreatest
        obtain rfl := hgreatest.eq (latest_greatest hfront hmiddle)
        obtain ⟨later, hlater, _⟩ := bind_eq_ok.mp hlast
        exact isLater_ok_iff.mp ⟨later, hlater⟩
      · rintro ⟨⟨middle, hmiddle⟩, hlast⟩
        obtain ⟨later, hlater⟩ := isLater_ok_iff.mpr (hlast middle (latest_greatest hfront hmiddle))
        refine ⟨if later then last else middle, middle, hmiddle, bind_eq_ok.mpr ⟨later, hlater, ?_⟩⟩
        cases later <;> rfl

/-! ## Candidates of a repetition -/

/-- The authoritative attempts, or all if there are none. -/
def candidates (attempts : List EvaluationAttempt) : List EvaluationAttempt :=
  if ∃ a ∈ attempts, a.disposition = .authoritative then
    attempts.filter fun attempt => attempt.disposition = .authoritative
  else attempts

section Candidates

variable {attempts : List EvaluationAttempt}

theorem candidates_of_filter {first : EvaluationAttempt} {rest : List EvaluationAttempt}
    (h : attempts.filter (fun attempt => attempt.disposition = .authoritative) = first :: rest) :
    candidates attempts = first :: rest := by
  have hfirst : first ∈ attempts.filter fun attempt => attempt.disposition = .authoritative := by
    rw [h]
    exact List.mem_cons_self
  obtain ⟨hmem, hdisposition⟩ := List.mem_filter.mp hfirst
  rw [candidates, if_pos ⟨first, hmem, of_decide_eq_true hdisposition⟩, h]

theorem candidates_of_filter_nil
    (h : attempts.filter (fun attempt => attempt.disposition = .authoritative) = []) :
    candidates attempts = attempts := by
  rw [candidates, if_neg]
  rintro ⟨a, ha, hdisposition⟩
  exact List.filter_eq_nil_iff.mp h a ha (decide_eq_true hdisposition)

theorem candidates_sublist (attempts : List EvaluationAttempt) :
    (candidates attempts).Sublist attempts := by
  rw [candidates]
  split_ifs
  · exact List.filter_sublist
  · exact List.Sublist.refl attempts

/-- A repetition is reduced exactly if its candidates can be scanned. Only the comparison of
start times can raise, and only candidates are compared. -/
theorem reduceRepetition_ok_iff (hids : (attempts.map EvaluationAttempt.attemptId).Nodup) :
    (∃ result, reduceRepetition attempts = .ok result) ↔ Scannable (candidates attempts) := by
  have hcandidates := hids.sublist ((candidates_sublist attempts).map EvaluationAttempt.attemptId)
  unfold reduceRepetition
  split
  next first rest hfilter =>
    rw [candidates_of_filter hfilter] at hcandidates ⊢
    rw [← latest_ok_iff hcandidates]
    simp only [bind_eq_ok]
    exact ⟨fun ⟨_, best, hbest, _⟩ => ⟨best, hbest⟩, fun ⟨best, hbest⟩ => ⟨_, best, hbest, rfl⟩⟩
  next hfilter =>
    rw [candidates_of_filter_nil hfilter]
    split
    next =>
      refine ⟨fun _ before attempt after best heq _ => ?_, fun _ => ⟨_, rfl⟩⟩
      simp at heq
    next first rest =>
      rw [← latest_ok_iff hids]
      simp only [bind_eq_ok]
      constructor
      · rintro ⟨_, best, hbest, _⟩
        exact ⟨best, hbest⟩
      · rintro ⟨best, hbest⟩
        by_cases hunusable : best.disposition = .stale ∨ best.disposition = .abandoned
        · exact ⟨_, best, hbest, by rw [if_pos hunusable]⟩
        · exact ⟨_, best, hbest, by rw [if_neg hunusable]⟩

end Candidates

end VerifierCI
