import VerifierCI.Evaluators.MalformedReports
import VerifierCI.Execution.Outcomes

/-! # When a capture is accepted

The precedence of the classification and the checks of the parser, put
together: one condition under which a capture is accepted and one under which
it is rejected.
-/

namespace VerifierCI

open Python

/-- Nothing went wrong before or beside the tests. -/
structure CleanCapture (capture : ExecutionCapture) : Prop where
  runtimeError : capture.runtimeError = none ∨ capture.runtimeError = some ""
  buildExitCode : capture.buildExitCode = none ∨ capture.buildExitCode = some 0
  cancelled : capture.cancelled = false
  timedOut : capture.timedOut = false
  oomKilled : capture.oomKilled ≠ some true
  truncated : capture.truncated = false

/-- Every test passed or was skipped, and of every required id the last entry passed. -/
structure TestsPass (manifest : VerifierManifest) (items : List WideJson) : Prop where
  entries : ∀ item ∈ items, HasStatus item .passed ∨ HasStatus item .skipped
  required : ∀ testId ∈ manifest.requiredPassIds, LastPassed items (wide testId)

/-- Some test neither passed nor was skipped, or of some required id the last
entry did not pass. -/
def TestsFail (manifest : VerifierManifest) (items : List WideJson) : Prop :=
  (∃ item ∈ items, ¬ HasStatus item .passed ∧ ¬ HasStatus item .skipped) ∨
    ∃ testId ∈ manifest.requiredPassIds, ¬ LastPassed items (wide testId)

section Criterion

variable {maxNesting : Nat} {capture : ExecutionCapture} {manifest : VerifierManifest}
  {reportBytes : Option (List UInt8)} {parsed : ParsedOutcome} {items : List WideJson}

theorem runtimeError?_eq_none_iff : capture.runtimeError? = none ↔
    capture.runtimeError = none ∨ capture.runtimeError = some "" := by
  unfold ExecutionCapture.runtimeError?
  cases capture.runtimeError with
  | none => simp
  | some text => simp

/-- The build and the limits are asked one after the other; the report is looked at only if all
pass. -/
theorem limitError?_eq_none_iff : limitError? capture = none ↔
    (capture.buildExitCode = none ∨ capture.buildExitCode = some 0) ∧ capture.cancelled = false ∧
      capture.timedOut = false ∧ capture.oomKilled ≠ some true ∧ capture.truncated = false := by
  have hbuild : capture.buildExitCode.any (· ≠ 0) = true ↔
      ¬ (capture.buildExitCode = none ∨ capture.buildExitCode = some 0) := by
    cases capture.buildExitCode <;> simp
  unfold limitError?
  split_ifs with hfailed hcancelled htimedOut hoom htruncated
  · simp [hbuild.mp hfailed]
  · simp [hcancelled]
  · simp [htimedOut]
  · simp [hoom]
  · simp [htruncated]
  · rw [hbuild, not_not] at hfailed
    simp [hfailed, hcancelled, htimedOut, hoom, htruncated]

/-- A clean capture is one whose report decides. -/
theorem parses_iff (hparser : manifest.parserId = pytestParserId) :
    Parses capture manifest ↔ CleanCapture capture := by
  constructor
  · intro h
    obtain ⟨hbuild, hcancelled, htimedOut, hoom, htruncated⟩ := limitError?_eq_none_iff.mp h.limit
    exact ⟨runtimeError?_eq_none_iff.mp h.runtimeError, hbuild, hcancelled, htimedOut, hoom,
      htruncated⟩
  · intro h
    exact ⟨runtimeError?_eq_none_iff.mpr h.runtimeError, limitError?_eq_none_iff.mpr
      ⟨h.buildExitCode, h.cancelled, h.timedOut, h.oomKilled, h.truncated⟩, hparser⟩

theorem WellFormedEntry.hasStatus {item : WideJson} (h : WellFormedEntry item) :
    ∃ status, HasStatus item status := by
  obtain ⟨_, members, rfl, _⟩ := h.nodeId
  exact ⟨statusOf members, members, rfl, rfl⟩

/-- An entry fails if it neither passes nor is skipped. -/
theorem failed_iff {item : WideJson} (hformed : WellFormedEntry item) :
    HasStatus item .failed ↔ ¬ HasStatus item .passed ∧ ¬ HasStatus item .skipped := by
  obtain ⟨status, hstatus⟩ := hformed.hasStatus
  constructor
  · intro hfailed
    constructor
    · intro hpassed
      cases hfailed.unique hpassed
    · intro hskipped
      cases hfailed.unique hskipped
  · rintro ⟨hpassed, hskipped⟩
    cases status with
    | passed => exact absurd hstatus hpassed
    | failed => exact hstatus
    | skipped => exact absurd hstatus hskipped

/-- In a well formed report every entry has a status, so that what did not pass and was not
skipped failed. -/
theorem hasFailures_eq_true_iff (hformed : ∀ item ∈ items, WellFormedEntry item) :
    hasFailures manifest (resultsOf items) = true ↔ TestsFail manifest items := by
  rw [← Bool.not_eq_false, hasFailures_eq_false_iff, not_and_or, TestsFail]
  refine or_congr ?_ (by push Not; rfl)
  push Not
  constructor
  · rintro ⟨item, hitem, _, _, hfailed⟩
    exact ⟨item, hitem, (failed_iff (hformed item hitem)).mp hfailed⟩
  · rintro ⟨item, hitem, hnot⟩
    obtain ⟨testId, hid⟩ := (hformed item hitem).nodeId
    exact ⟨item, hitem, testId, hid, (failed_iff (hformed item hitem)).mpr hnot⟩

theorem hasFailures_eq_false_iff_pass (hformed : ∀ item ∈ items, WellFormedEntry item) :
    hasFailures manifest (resultsOf items) = false ↔ TestsPass manifest items := by
  rw [← Bool.not_eq_true, hasFailures_eq_true_iff hformed, TestsFail]
  push Not
  constructor
  · rintro ⟨hentries, hrequired⟩
    exact ⟨fun item hitem => or_iff_not_imp_left.mpr (hentries item hitem), hrequired⟩
  · rintro ⟨hentries, hrequired⟩
    exact ⟨fun item hitem => or_iff_not_imp_left.mp (hentries item hitem), hrequired⟩

/-- Among the decisions only an acceptance depends on the exit code. -/
theorem decision_accept_iff {failures : Bool} {exitCode : Option Int} {report : TestReport} :
    (decision failures exitCode report).outcome = .accept ↔
      failures = false ∧ (exitCode = none ∨ exitCode = some 0) := by
  cases failures with
  | true => simp [decision]
  | false =>
      cases exitCode with
      | none => simp [decision]
      | some code => by_cases hcode : code = 0 <;> simp [decision, hcode, ParsedOutcome.invalid]

theorem decision_reject_iff {failures : Bool} {exitCode : Option Int} {report : TestReport} :
    (decision failures exitCode report).outcome = .reject ↔ failures = true := by
  cases failures with
  | true => simp [decision]
  | false =>
      cases exitCode with
      | none => simp [decision]
      | some code => by_cases hcode : code = 0 <;> simp [decision, hcode, ParsedOutcome.invalid]

/-- A classified capture is decided on by its report, or gives no decision. -/
theorem parseCapture_cases
    (h : parseCapture maxNesting capture manifest reportBytes = .ok parsed) :
    (Parses capture manifest ∧ ∃ items, DecidesOn maxNesting reportBytes manifest items ∧
      parsed.outcome = (decision (hasFailures manifest (resultsOf items)) capture.exitCode
        (reportOf (resultsOf items))).outcome) ∨
    (¬ (Parses capture manifest ∧ ∃ items, DecidesOn maxNesting reportBytes manifest items) ∧
      parsed.outcome ≠ .accept ∧ parsed.outcome ≠ .reject) := by
  by_cases hparses : Parses capture manifest
  · simp only [parseCapture, hparses.runtimeError, hparses.limit, if_pos hparses.parser] at h
    obtain ⟨result, hresult, h⟩ := bind_eq_ok.mp h
    have houtcome : parsed.outcome = result.outcome := by
      obtain rfl := Except.ok.inj h
      split <;> rfl
    rcases parse_cases hresult with ⟨items, hitems, rfl⟩ | ⟨hnone, hinvalid⟩
    · exact Or.inl ⟨hparses, items, hitems, houtcome⟩
    · refine Or.inr ⟨?_, ?_⟩
      · rintro ⟨_, items, hitems⟩
        exact hnone items hitems
      · rw [houtcome, hinvalid]
        decide
  · refine Or.inr ⟨fun hdecided => hparses hdecided.1, ?_⟩
    have hvalid : parsed.evaluationValidity ≠ .valid := fun hvalid =>
      hparses (parseCapture_valid h hvalid)
    have hconsistent := (parseCapture_parsed h).consistent
    exact ⟨fun haccept => hvalid (hconsistent.valid (Or.inl haccept)),
      fun hreject => hvalid (hconsistent.valid (Or.inr hreject))⟩

/-- The exact criterion for both decisions: a clean capture, a report that lists
well formed entries in the expected collection with permitted skips, and then
the tests; only an acceptance needs the exit code as well. -/
theorem acceptance_criterion (hparser : manifest.parserId = pytestParserId)
    (hreturns : parseCapture maxNesting capture manifest reportBytes = .ok parsed) :
    (parsed.outcome = .accept ↔ CleanCapture capture ∧
      (capture.exitCode = none ∨ capture.exitCode = some 0) ∧
      ∃ items, ReportTests maxNesting reportBytes items ∧ Judged manifest items ∧
        TestsPass manifest items) ∧
    (parsed.outcome = .reject ↔ CleanCapture capture ∧
      ∃ items, ReportTests maxNesting reportBytes items ∧ Judged manifest items ∧
        TestsFail manifest items) := by
  rw [← parses_iff hparser]
  rcases parseCapture_cases hreturns with ⟨hparses, items, ⟨htests, hjudged⟩, houtcome⟩ |
    ⟨hnot, haccept, hreject⟩
  -- the parser decides, on the one list of entries the report has
  · rw [houtcome, decision_accept_iff, decision_reject_iff,
      hasFailures_eq_false_iff_pass hjudged.wellFormed, hasFailures_eq_true_iff hjudged.wellFormed]
    constructor
    · constructor
      · rintro ⟨hpass, hexit⟩
        exact ⟨hparses, hexit, items, htests, hjudged, hpass⟩
      · rintro ⟨_, hexit, others, hothers, _, hpass⟩
        obtain rfl := htests.unique hothers
        exact ⟨hpass, hexit⟩
    · constructor
      · exact fun hfail => ⟨hparses, items, htests, hjudged, hfail⟩
      · rintro ⟨_, others, hothers, _, hfail⟩
        obtain rfl := htests.unique hothers
        exact hfail
  · constructor
    -- neither decision is made, and the criterion would have called for the parser
    · apply iff_of_false haccept
      rintro ⟨hparses, _, items, htests, hjudged, _⟩
      exact hnot ⟨hparses, items, htests, hjudged⟩
    · apply iff_of_false hreject
      rintro ⟨hparses, items, htests, hjudged, _⟩
      exact hnot ⟨hparses, items, htests, hjudged⟩

def passedReport : List UInt8 :=
  ascii "\x7b\"tests\":[\x7b\"nodeid\":\"a\",\"outcome\":\"passed\"\x7d]\x7d"

/-- One test that passed, after a build without a word, is accepted. -/
theorem acceptance_criterion_passed :
    (Outcome.accept = .accept ↔ CleanCapture calmCapture ∧
      (calmCapture.exitCode = none ∨ calmCapture.exitCode = some 0) ∧
      ∃ items, ReportTests 1000 (some passedReport) items ∧ Judged openManifest items ∧
        TestsPass openManifest items) ∧
    (Outcome.accept = .reject ↔ CleanCapture calmCapture ∧
      ∃ items, ReportTests 1000 (some passedReport) items ∧ Judged openManifest items ∧
        TestsFail openManifest items) := by
  have hreturns : parseCapture 1000 calmCapture openManifest (some passedReport) =
      .ok { outcome := .accept
            evaluationValidity := .valid
            errorCode := none
            report := some (reportOf [⟨wide "a", .passed, none, none⟩])
            evidenceDigests := [] } := by
    decide +kernel
  exact acceptance_criterion rfl hreturns

end Criterion

end VerifierCI
