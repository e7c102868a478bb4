import VerifierCI.Execution.AttemptScans
import VerifierCI.Execution.Operations

/-! # The classes of a cell

A cell is classified by the outcomes of its repetitions, none of which can be
outvoted. The specification names the attempt that stands for a repetition and
then the class of the outcomes as a whole.
-/

namespace VerifierCI

open Python

/-! ## The attempt of a repetition -/

/-- The greatest of the candidates, unless it is stale or abandoned. -/
structure StandsFor (attempts : List EvaluationAttempt) (a : EvaluationAttempt) : Prop where
  mem : a ∈ candidates attempts
  greatest : ∀ b ∈ candidates attempts, b ≠ a → Later a b
  usable : a.disposition ≠ .stale ∧ a.disposition ≠ .abandoned

/-- The outcome of a repetition, `pending` if no attempt stands for it. -/
def OutcomeAt (attempts : List EvaluationAttempt) (outcome : RepetitionOutcome) : Prop :=
  (∃ a, StandsFor attempts a ∧ outcome = orPending a.outcome) ∨
    (∀ a, ¬ StandsFor attempts a) ∧ outcome = .pending

section Selection

variable {attempts : List EvaluationAttempt} {a : EvaluationAttempt}

theorem mem_candidates_of_authoritative (hauth : ∃ b ∈ attempts, b.disposition = .authoritative) :
    a ∈ candidates attempts ↔ a ∈ attempts ∧ a.disposition = .authoritative := by
  rw [candidates, if_pos hauth, List.mem_filter, decide_eq_true_eq]

theorem mem_candidates_of_none (hnone : ¬ ∃ b ∈ attempts, b.disposition = .authoritative) :
    a ∈ candidates attempts ↔ a ∈ attempts := by
  rw [candidates, if_neg hnone]

/-- Standing for a repetition is being ahead of all its other attempts. The reducer takes the
authoritative attempts where there are any, and the latest of what it has taken. -/
theorem standsFor_iff_preferred : StandsFor attempts a ↔ Preferred attempts a := by
  by_cases hauth : ∃ b ∈ attempts, b.disposition = .authoritative
  · constructor
    · intro h
      obtain ⟨hmem, hdisposition⟩ := (mem_candidates_of_authoritative hauth).mp h.mem
      refine ⟨hmem, ?_, h.usable⟩
      -- other authoritative attempts are earlier, and all others come second anyway
      intro b hb hne
      by_cases hbAuth : b.disposition = .authoritative
      · exact Or.inr ⟨by simp [hdisposition, hbAuth],
          h.greatest b ((mem_candidates_of_authoritative hauth).mpr ⟨hb, hbAuth⟩) hne⟩
      · exact Or.inl ⟨hdisposition, hbAuth⟩
    · intro h
      -- Some authoritative attempt is outranked by it, so it is authoritative itself.
      have hdisposition : a.disposition = .authoritative := by
        obtain ⟨b, hb, hbAuth⟩ := hauth
        by_cases heq : b = a
        · exact heq ▸ hbAuth
        · rcases h.outranks b hb heq with ⟨_, hnot⟩ | ⟨hiff, _⟩
          · exact absurd hbAuth hnot
          · exact hiff.mpr hbAuth
      refine ⟨(mem_candidates_of_authoritative hauth).mpr ⟨h.mem, hdisposition⟩, ?_, h.usable⟩
      intro b hb hne
      obtain ⟨hbMem, hbAuth⟩ := (mem_candidates_of_authoritative hauth).mp hb
      rcases h.outranks b hbMem hne with ⟨_, hnot⟩ | ⟨_, hlater⟩
      · exact absurd hbAuth hnot
      · exact hlater
  -- without an authoritative attempt the candidates are all attempts
  · have hplain : ∀ b ∈ attempts, b.disposition ≠ .authoritative := fun b hb hdisposition =>
      hauth ⟨b, hb, hdisposition⟩
    constructor
    · intro h
      have hmem := (mem_candidates_of_none hauth).mp h.mem
      refine ⟨hmem, ?_, h.usable⟩
      intro b hb hne
      exact Or.inr ⟨by simp [hplain a hmem, hplain b hb],
        h.greatest b ((mem_candidates_of_none hauth).mpr hb) hne⟩
    · intro h
      refine ⟨(mem_candidates_of_none hauth).mpr h.mem, ?_, h.usable⟩
      intro b hb hne
      rcases h.outranks b ((mem_candidates_of_none hauth).mp hb) hne with ⟨hdisposition, _⟩ |
        ⟨_, hlater⟩
      · exact absurd hdisposition (hplain a h.mem)
      · exact hlater

/-- A successful reduction records the outcome of the repetition. -/
theorem ReducesTo.outcomeAt {result : RepetitionResult} (h : ReducesTo attempts result) :
    OutcomeAt attempts result.outcome := by
  cases hselected : result.selected with
  | some selected =>
      refine Or.inl ⟨selected, standsFor_iff_preferred.mpr ((h.selected selected).mp hselected), ?_⟩
      rw [RepetitionResult.outcome, hselected, Option.bind_some]
  | none =>
      refine Or.inr ⟨?_, ?_⟩
      · intro a ha
        have hsome := (h.selected a).mpr (standsFor_iff_preferred.mp ha)
        rw [hselected] at hsome
        cases hsome
      · rw [RepetitionResult.outcome, hselected, Option.bind_none, orPending]

end Selection

/-! ## The classes of outcomes -/

def Uniform (outcomes : List RepetitionOutcome) (outcome : Outcome) : Prop :=
  ∀ o ∈ outcomes, o = .completed outcome

/-- All repetitions accept or reject, and both occur. -/
structure Flaky (outcomes : List RepetitionOutcome) : Prop where
  decided : ∀ o ∈ outcomes, o = .completed .accept ∨ o = .completed .reject
  accepts : .completed .accept ∈ outcomes
  rejects : .completed .reject ∈ outcomes

/-- All repetitions are there, but neither of one outcome nor accepting and rejecting only. -/
structure Unstable (outcomes : List RepetitionOutcome) : Prop where
  complete : .pending ∉ outcomes
  mixed : ∀ outcome, ¬ Uniform outcomes outcome
  undecided : ¬ ∀ o ∈ outcomes, o = .completed .accept ∨ o = .completed .reject

/-- The verdict on the outcomes, one case for each class. -/
inductive Verdict (outcomes : List RepetitionOutcome) (codes : List String) :
    CellOutcome × CellValidity × List String → Prop
  | incomplete (h : .pending ∈ outcomes) : Verdict outcomes codes
      (.invalidEvaluation, .invalid, appendIfAbsent codes "INCOMPLETE_REPETITIONS")
  | accept (h : Uniform outcomes .accept) : Verdict outcomes codes (.accept, .valid, codes)
  | reject (h : Uniform outcomes .reject) : Verdict outcomes codes (.reject, .valid, codes)
  | flaky (h : Flaky outcomes) :
      Verdict outcomes codes (.flaky, .invalid, appendIfAbsent codes "FLAKY")
  | invalid (h : Uniform outcomes .invalidEvaluation) :
      Verdict outcomes codes (.invalidEvaluation, .invalid, codes)
  | error (h : Uniform outcomes .error) : Verdict outcomes codes (.error, .invalid, codes)
  | unstable (h : Unstable outcomes) : Verdict outcomes codes
      (.invalidEvaluation, .invalid, appendIfAbsent codes "instability_detected")

section Verdicts

variable {planned : Int} {outcomes : List RepetitionOutcome} {codes : List String}

theorem uniform_iff_count {outcome : Outcome} :
    outcomes.count (.completed outcome) = outcomes.length ↔ Uniform outcomes outcome := by
  rw [List.count_eq_length]
  exact ⟨fun h o ho => (h o ho).symm, fun h o ho => (h o ho).symm⟩

theorem count_add_count {α : Type} [DecidableEq α] {a b : α} (hne : a ≠ b) (items : List α) :
    items.count a + items.count b = items.countP fun x => x = a ∨ x = b := by
  induction items with
  | nil => rfl
  | cons item rest ih =>
      rw [List.count_cons, List.count_cons, List.countP_cons, ← ih]
      by_cases ha : item = a
      · subst ha
        simp only [beq_self_eq_true, if_true, beq_iff_eq, if_neg hne, true_or, decide_true]
        omega
      · by_cases hb : item = b
        · subst hb
          simp only [beq_self_eq_true, if_true, beq_iff_eq, if_neg ha, or_true, decide_true]
          omega
        · simp [ha, hb]

/-- Two counts make up the length when nothing else occurs. -/
theorem count_add_count_eq_length {α : Type} [DecidableEq α] {a b : α} (hne : a ≠ b)
    {items : List α} :
    items.count a + items.count b = items.length ↔ ∀ x ∈ items, x = a ∨ x = b := by
  rw [count_add_count hne, List.countP_eq_length]
  simp only [decide_eq_true_eq]

/-- Something is missing if fewer repetitions are completed than planned. -/
theorem missing_iff (hlength : outcomes.length = planned.toNat) (hplanned : 1 ≤ planned) :
    ((outcomes.filter (· ≠ .pending)).length : Int) < planned ↔ .pending ∈ outcomes := by
  have hlt : ((outcomes.filter (· ≠ .pending)).length : Int) < planned ↔
      (outcomes.filter (· ≠ .pending)).length < outcomes.length := by omega
  rw [hlt, List.length_filter_lt_length_iff_exists]
  simp

/-- The chain of conditions, read in its order: pending repetitions come first, then the uniform
outcomes, then the mixed ones. -/
theorem cellVerdict_spec (hlength : outcomes.length = planned.toNat) (hplanned : 1 ≤ planned) :
    Verdict outcomes codes (cellVerdict planned outcomes codes) := by
  unfold cellVerdict
  dsimp only
  split
  next hmissing => exact .incomplete ((missing_iff hlength hplanned).mp hmissing)
  next hcomplete =>
    have hpending := (missing_iff hlength hplanned).not.mp hcomplete
    rw [completed_eq hlength hcomplete]
    split
    next h => exact .accept (uniform_iff_count.mp h)
    next haccept =>
      split
      next h => exact .reject (uniform_iff_count.mp h)
      next hreject =>
        rw [uniform_iff_count] at haccept hreject
        -- Counts of two different outcomes add up to the length only if there is no third.
        have hdecided : outcomes.count (.completed .accept) + outcomes.count (.completed .reject) =
            outcomes.length ↔ ∀ o ∈ outcomes, o = .completed .accept ∨ o = .completed .reject :=
          count_add_count_eq_length (by decide)
        split
        next h =>
          exact .flaky ⟨hdecided.mp h.2.2, List.count_pos_iff.mp h.1, List.count_pos_iff.mp h.2.1⟩
        next hflaky =>
          split
          next h => exact .invalid (uniform_iff_count.mp h)
          next hinvalid =>
            split
            next h => exact .error (uniform_iff_count.mp h)
            next herror =>
              rw [uniform_iff_count] at hinvalid herror
              refine .unstable ⟨hpending, ?_, ?_⟩
              · intro outcome
                cases outcome with
                | accept => exact haccept
                | reject => exact hreject
                | invalidEvaluation => exact hinvalid
                | error => exact herror
              · -- of accepting and rejecting repetitions both would occur
                intro hall
                refine hflaky ⟨List.count_pos_iff.mpr ?_, List.count_pos_iff.mpr ?_,
                  hdecided.mpr hall⟩
                · by_contra hnot
                  refine hreject fun o ho => (hall o ho).resolve_left ?_
                  rintro rfl
                  exact hnot ho
                · by_contra hnot
                  refine haccept fun o ho => (hall o ho).resolve_right ?_
                  rintro rfl
                  exact hnot ho

/-! ### Classes exclude each other -/

theorem Uniform.eq (hne : outcomes ≠ []) {outcome other : Outcome} (h : Uniform outcomes outcome)
    (hother : Uniform outcomes other) : outcome = other := by
  obtain ⟨o, ho⟩ := List.exists_mem_of_ne_nil outcomes hne
  exact RepetitionOutcome.completed.inj ((h o ho).symm.trans (hother o ho))

theorem Uniform.not_pending {outcome : Outcome} (h : Uniform outcomes outcome) :
    .pending ∉ outcomes := by
  intro hpending
  cases h _ hpending

theorem Uniform.not_flaky {outcome : Outcome} (h : Uniform outcomes outcome) :
    ¬ Flaky outcomes := by
  intro hflaky
  cases (h _ hflaky.accepts).trans (h _ hflaky.rejects).symm

theorem Uniform.not_unstable {outcome : Outcome} (h : Uniform outcomes outcome) :
    ¬ Unstable outcomes :=
  fun hunstable => hunstable.mixed outcome h

theorem Flaky.not_pending (h : Flaky outcomes) : .pending ∉ outcomes := by
  intro hpending
  rcases h.decided _ hpending with heq | heq <;> cases heq

theorem Flaky.not_uniform (h : Flaky outcomes) (outcome : Outcome) : ¬ Uniform outcomes outcome :=
  fun huniform => huniform.not_flaky h

theorem Flaky.not_unstable (h : Flaky outcomes) : ¬ Unstable outcomes :=
  fun hunstable => hunstable.undecided h.decided

theorem Unstable.not_flaky (h : Unstable outcomes) : ¬ Flaky outcomes :=
  fun hflaky => hflaky.not_unstable h

end Verdicts

/-! ## Classified cells -/

/-- The codes the reducer adds by itself. -/
def reducerCodes : List String :=
  ["INCOMPLETE_REPETITIONS", "FLAKY", "instability_detected"]

/-- Outcome, validity and codes as the classes of the outcomes have them. -/
structure Classes (outcomes : List RepetitionOutcome) (outcome : CellOutcome)
    (validity : CellValidity) (codes : List String) : Prop where
  accept : outcome = .accept ∧ validity = .valid ↔ Uniform outcomes .accept
  reject : outcome = .reject ∧ validity = .valid ↔ Uniform outcomes .reject
  flaky : outcome = .flaky ∧ validity = .invalid ↔ Flaky outcomes
  error : outcome = .error ∧ validity = .invalid ↔ Uniform outcomes .error
  otherwise : outcome = .invalidEvaluation ∧ validity = .invalid ↔
    ¬ (Uniform outcomes .accept ∨ Uniform outcomes .reject ∨ Flaky outcomes ∨
      Uniform outcomes .error)
  flakyCode : "FLAKY" ∈ codes ↔ Flaky outcomes
  incompleteCode : "INCOMPLETE_REPETITIONS" ∈ codes ↔ .pending ∈ outcomes
  instabilityCode : "instability_detected" ∈ codes ↔ Unstable outcomes

/-- No two classes overlap, so the branch that is taken fixes all the others. The codes of the
reducer occur only where it adds them. -/
theorem Verdict.classes {outcomes : List RepetitionOutcome} {codes : List String}
    {verdict : CellOutcome × CellValidity × List String} (hne : outcomes ≠ [])
    (hcodes : ∀ code ∈ reducerCodes, code ∉ codes) (h : Verdict outcomes codes verdict) :
    Classes outcomes verdict.1 verdict.2.1 verdict.2.2 := by
  simp only [reducerCodes, List.forall_mem_cons] at hcodes
  obtain ⟨hincomplete, hflaky, hunstable, _⟩ := hcodes
  -- Each verdict excludes the other classes, by lemmas or because there is some repetition.
  cases h with
  | incomplete h =>
      have huniform : ∀ outcome, ¬ Uniform outcomes outcome := fun _ hall => hall.not_pending h
      have hnotFlaky : ¬ Flaky outcomes := fun hflaky => hflaky.not_pending h
      have hnotUnstable : ¬ Unstable outcomes := fun hunstable => hunstable.complete h
      constructor <;>
        simp [mem_appendIfAbsent, huniform, hnotFlaky, hnotUnstable, h, hflaky, hunstable]
  | accept h =>
      have hreject : ¬ Uniform outcomes .reject := fun hall => by cases h.eq hne hall
      have herror : ¬ Uniform outcomes .error := fun hall => by cases h.eq hne hall
      constructor <;>
        simp [h, hreject, herror, h.not_pending, h.not_flaky, h.not_unstable, hincomplete, hflaky,
          hunstable]
  | reject h =>
      have haccept : ¬ Uniform outcomes .accept := fun hall => by cases h.eq hne hall
      have herror : ¬ Uniform outcomes .error := fun hall => by cases h.eq hne hall
      constructor <;>
        simp [h, haccept, herror, h.not_pending, h.not_flaky, h.not_unstable, hincomplete, hflaky,
          hunstable]
  | flaky h =>
      constructor <;>
        simp [mem_appendIfAbsent, h, h.not_uniform, h.not_pending, h.not_unstable, hincomplete,
          hunstable]
  | invalid h =>
      have haccept : ¬ Uniform outcomes .accept := fun hall => by cases h.eq hne hall
      have hreject : ¬ Uniform outcomes .reject := fun hall => by cases h.eq hne hall
      have herror : ¬ Uniform outcomes .error := fun hall => by cases h.eq hne hall
      constructor <;>
        simp [haccept, hreject, herror, h.not_pending, h.not_flaky, h.not_unstable, hincomplete,
          hflaky, hunstable]
  | error h =>
      have haccept : ¬ Uniform outcomes .accept := fun hall => by cases h.eq hne hall
      have hreject : ¬ Uniform outcomes .reject := fun hall => by cases h.eq hne hall
      constructor <;>
        simp [h, haccept, hreject, h.not_pending, h.not_flaky, h.not_unstable, hincomplete, hflaky,
          hunstable]
  | unstable h =>
      constructor <;>
        simp [mem_appendIfAbsent, h, h.mixed, h.not_flaky, h.complete, hincomplete, hflaky]

/-- The attempts of the jobs a map assigns to a repetition. -/
def mappedTo (jobRepetition : String → Option Int) (attempts : List EvaluationAttempt) (rep : Nat) :
    List EvaluationAttempt :=
  attempts.filter fun attempt => jobRepetition attempt.jobId = some (rep : Int)

/-- The cell shows the outcome of each repetition and is classified by them. -/
structure Classified (planned : Int) (jobRepetition : String → Option Int)
    (attempts : List EvaluationAttempt) (cell : AcceptanceCell) : Prop where
  length : cell.repetitionOutcomes.length = planned.toNat
  outcomes : ∀ rep outcome, cell.repetitionOutcomes[rep]? = some outcome →
    OutcomeAt (mappedTo jobRepetition attempts rep) outcome
  classes : Classes cell.repetitionOutcomes cell.outcome cell.evaluationValidity
    cell.diagnosticCodes

section Cells

variable {planned : Int} {jobRepetition : String → Option Int} {attempts : List EvaluationAttempt}
  {header : CellHeader} {cell : AcceptanceCell}

/-- Within the plan the reducer counts an attempt for the repetition its job is mapped to. -/
theorem repetitionOf_eq_some_iff {attempt : EvaluationAttempt} {rep : Nat}
    (hrep : (rep : Int) < planned) :
    repetitionOf planned jobRepetition attempt = some rep ↔
      jobRepetition attempt.jobId = some (rep : Int) := by
  unfold repetitionOf
  cases hmap : jobRepetition attempt.jobId with
  | none => simp
  | some assigned =>
      simp only [Option.some.injEq]
      split_ifs with hrange
      · simp only [false_iff]
        omega
      · rw [Option.some.injEq]
        omega

theorem attemptsAt_eq_mappedTo {rep : Nat} (hrep : (rep : Int) < planned) :
    attemptsAt planned jobRepetition attempts rep = mappedTo jobRepetition attempts rep := by
  apply List.filter_congr
  intro attempt _
  rw [decide_eq_decide]
  exact repetitionOf_eq_some_iff hrep

theorem repetitionOf_lt {attempt : EvaluationAttempt} {rep : Nat}
    (h : repetitionOf planned jobRepetition attempt = some rep) : (rep : Int) < planned := by
  unfold repetitionOf at h
  split at h
  · cases h
  · split at h
    · cases h
    next hrange =>
      have heq := Option.some.inj h
      omega

theorem attemptsAt_eq_nil {rep : Nat} (hrep : ¬ (rep : Int) < planned) :
    attemptsAt planned jobRepetition attempts rep = [] := by
  rw [attemptsAt, List.filter_eq_nil_iff]
  intro attempt _ hat
  exact hrep (repetitionOf_lt (of_decide_eq_true hat))

theorem attemptsAt_ids_nodup (hids : (attempts.map EvaluationAttempt.attemptId).Nodup)
    (rep : Nat) :
    ((attemptsAt planned jobRepetition attempts rep).map EvaluationAttempt.attemptId).Nodup :=
  hids.sublist (List.filter_sublist.map EvaluationAttempt.attemptId)

/-- Every code of a repetition is that of an attempt. -/
theorem AggregatesTo.code_of_attempt {results : List RepetitionResult}
    (h : AggregatesTo planned (attemptsAt planned jobRepetition attempts) results) {code : String}
    (hcode : code ∈ results.filterMap RepetitionResult.diagnosticCode) :
    ∃ attempt ∈ attempts, code ∈ attempt.errorCode := by
  obtain ⟨result, hresult, hcode⟩ := List.mem_filterMap.mp hcode
  obtain ⟨a, hselected, herror⟩ := Option.bind_eq_some_iff.mp (Option.filter_eq_some_iff.mp hcode).1
  obtain ⟨rep, hrep⟩ := List.mem_iff_getElem?.mp hresult
  have ha := ((h.reduces rep result hrep).selected a).mp hselected
  exact ⟨a, List.mem_of_mem_filter ha.mem, herror⟩

/-- A cell that is aggregated is classified by the outcomes of its repetitions. The codes of the
attempts do not interfere, as none of them is one of the codes the reducer adds itself. -/
theorem AggregatesTo.classified {results : List RepetitionResult} (hplanned : 1 ≤ planned)
    (hcodes : ∀ attempt ∈ attempts, ∀ code ∈ attempt.errorCode, code ∉ reducerCodes)
    (haggregates : AggregatesTo planned (attemptsAt planned jobRepetition attempts) results) :
    Classified planned jobRepetition attempts
      (assembleCell header planned (unmappedAttempts planned jobRepetition attempts) results) := by
  have hlength : (results.map RepetitionResult.outcome).length = planned.toNat := by
    rw [List.length_map, haggregates.length]
  have hne : results.map RepetitionResult.outcome ≠ [] := by
    rw [← List.length_pos_iff, hlength]
    omega
  have hclasses : Classes _ _ _ _ := (cellVerdict_spec hlength hplanned).classes hne (by
    intro code hmem hcode
    obtain ⟨attempt, hattempt, herror⟩ := haggregates.code_of_attempt hcode
    exact hcodes attempt hattempt code herror hmem)
  refine ⟨hlength, ?_, ?_⟩
  · intro rep outcome houtcome
    have houtcome : (results.map RepetitionResult.outcome)[rep]? = some outcome := houtcome
    rw [List.getElem?_map] at houtcome
    obtain ⟨result, hresult, rfl⟩ := Option.map_eq_some_iff.mp houtcome
    rw [← attemptsAt_eq_mappedTo (haggregates.lt_of_getElem? hresult)]
    exact (haggregates.reduces rep result hresult).outcomeAt
  · exact { hclasses with
      flakyCode := mem_dedupeCodes.trans hclasses.flakyCode
      incompleteCode := mem_dedupeCodes.trans hclasses.incompleteCode
      instabilityCode := mem_dedupeCodes.trans hclasses.instabilityCode }

/-- A cell is aggregated exactly if the attempts that compete for each of its repetitions can
be scanned for the latest. -/
theorem aggregateCell_ok_iff (header : CellHeader)
    (hids : (attempts.map EvaluationAttempt.attemptId).Nodup) :
    (∃ cell, aggregateCell header planned attempts jobRepetition = .ok cell) ↔
      ∀ rep : Nat, (rep : Int) < planned →
        Scannable (candidates (mappedTo jobRepetition attempts rep)) := by
  constructor
  · rintro ⟨cell, hcell⟩ rep hrep
    obtain ⟨results, hresults, _⟩ := bind_eq_ok.mp hcell
    rw [← attemptsAt_eq_mappedTo hrep, ← reduceRepetition_ok_iff (attemptsAt_ids_nodup hids rep)]
    exact exists_mapM_ok.mp ⟨results, hresults⟩ rep (List.mem_range.mpr (by omega))
  · intro hscannable
    apply aggregateCell_succeeds header
    intro rep
    by_cases hrep : (rep : Int) < planned
    · rw [reduceRepetition_ok_iff (attemptsAt_ids_nodup hids rep), attemptsAt_eq_mappedTo hrep]
      exact hscannable rep hrep
    · rw [attemptsAt_eq_nil hrep]
      exact ⟨⟨none, []⟩, rfl⟩

/-- Cells are classified by the outcomes of their repetitions, without majority
voting, unless the scan for the latest attempt meets start times that cannot be
compared. -/
theorem cell_classified_iff (hplanned : 1 ≤ planned)
    (hids : (attempts.map EvaluationAttempt.attemptId).Nodup)
    (hcodes : ∀ attempt ∈ attempts, ∀ code ∈ attempt.errorCode, code ∉ reducerCodes) :
    (∃ cell, aggregateCell header planned attempts jobRepetition = .ok cell ∧
      Classified planned jobRepetition attempts cell) ↔
        ∀ rep : Nat, (rep : Int) < planned →
          Scannable (candidates (mappedTo jobRepetition attempts rep)) := by
  refine Iff.trans ?_ (aggregateCell_ok_iff header hids)
  constructor
  · rintro ⟨cell, hcell, _⟩
    exact ⟨cell, hcell⟩
  · rintro ⟨cell, hcell⟩
    obtain ⟨results, haggregates, rfl⟩ := aggregateCell_ok hids hcell
    exact ⟨_, hcell, haggregates.classified hplanned hcodes⟩

end Cells

/-- One accepting and one rejecting attempt, one for each repetition. -/
def mixedAttempts : List EvaluationAttempt :=
  [acceptingAttempt "first" "zero" 1,
    { acceptingAttempt "second" "one" 1 with outcome := some .reject }]

def mixedRepetition (jobId : String) : Option Int :=
  if jobId = "zero" then some 0 else some 1

def mixedHeader : CellHeader where
  taskKey := "task"
  repositoryId := ""
  caseId := "case"
  verifierKey := "verifier"
  adjudicationId := "unadjudicated"
  label := .unresolved
  role := .challenge

theorem mixedAttempts_comparable (rep : Nat) :
    (mappedTo mixedRepetition mixedAttempts rep).Pairwise Comparable := by
  have hsame : ∀ a ∈ mixedAttempts, ∀ b ∈ mixedAttempts, Comparable a b := by
    unfold Comparable
    decide
  apply List.Pairwise.sublist List.filter_sublist
  exact List.pairwise_of_forall_mem_list hsame

/-- One repetition accepts and the other rejects, so the cell is flaky and no majority is asked
for. -/
theorem cell_classified_mixed :
    ∃ cell, aggregateCell mixedHeader 2 mixedAttempts mixedRepetition = .ok cell ∧
      Classified 2 mixedRepetition mixedAttempts cell := by
  refine (cell_classified_iff (by decide) (by decide)
    (by simp [mixedAttempts, acceptingAttempt])).mpr ?_
  intro rep _
  exact scannable_of_comparable
    ((mixedAttempts_comparable rep).sublist (candidates_sublist _))

/-- The start of an attempt that does not know its offset. -/
def naiveStart : Datetime where
  micros := 0
  utcoffset := none
  micros_mem := Datetime.zero_mem

/-- Of three attempts the last one has the greatest fence, and the second does not know the
offset of its start. -/
def unequalStarts : List EvaluationAttempt :=
  [acceptingAttempt "first" "zero" 1,
    { acceptingAttempt "second" "zero" 1 with startedAt := naiveStart },
    acceptingAttempt "third" "zero" 2]

/-- The third attempt stands for the repetition, as its fence is the greatest, but the scan
meets the other two first and there is no cell. -/
theorem unequalStarts_unclassified :
    (unequalStarts.map EvaluationAttempt.attemptId).Nodup ∧
      (∀ attempt ∈ unequalStarts, ∀ code ∈ attempt.errorCode, code ∉ reducerCodes) ∧
      StandsFor (mappedTo mixedRepetition unequalStarts 0) (acceptingAttempt "third" "zero" 2) ∧
      aggregateCell mixedHeader 1 unequalStarts mixedRepetition = .error .typeError ∧
      ¬ ∃ cell, aggregateCell mixedHeader 1 unequalStarts mixedRepetition = .ok cell ∧
        Classified 1 mixedRepetition unequalStarts cell := by
  have hraises : aggregateCell mixedHeader 1 unequalStarts mixedRepetition = .error .typeError := by
    decide
  refine ⟨by decide, by simp [unequalStarts, acceptingAttempt], ?_, hraises, ?_⟩
  · refine ⟨by decide, ?_, by decide⟩
    unfold Later
    decide
  · rintro ⟨cell, hcell, _⟩
    rw [hraises] at hcell
    cases hcell

end VerifierCI
