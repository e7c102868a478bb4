import VerifierCI.Evaluators.ReportCriteria

/-! # Malformed reports

A malformed report is refused with two exceptions: what cannot be read raises,
and an entry without an outcome counts as a failed test. The second one ends in
a rejection unless the collection or a skip is wrong anyway.
-/

namespace VerifierCI

open Python

/-- An entry that is no object, or has no node id, no textual outcome or no
usable duration. -/
def MalformedEntry (item : WideJson) : Prop :=
  ¬ (WellFormedEntry item ∧ HasOutcome item)

section Refusal

variable (maxNesting : Nat) (reportBytes : Option (List UInt8)) (manifest : VerifierManifest)
  (capture : ExecutionCapture)

/-- The report is no JSON object, or its tests are no list of well formed entries. -/
def MalformedReport : Prop :=
  (∀ members, ¬ ReportObject maxNesting reportBytes members) ∨
    ∃ members value, ReportObject maxNesting reportBytes members ∧
      members.lookup (wide "tests") = some value ∧
        ∀ items, value = .arr items → ∃ item ∈ items, MalformedEntry item

/-- The parser returns, and a malformed report is not a valid observation. -/
def RefusesMalformed : Prop :=
  ∃ parsed, parse maxNesting reportBytes manifest capture = .ok parsed ∧
    (MalformedReport maxNesting reportBytes →
      parsed.outcome = .invalidEvaluation ∧ parsed.evaluationValidity = .invalid)

/-- Where nothing but outcomes is missing, the collection or a skip is wrong. -/
def OutcomesMissed : Prop :=
  ∀ items, ReportTests maxNesting reportBytes items → (∀ item ∈ items, WellFormedEntry item) →
    (∃ item ∈ items, ¬ HasOutcome item) →
      ¬ (CollectionExpected manifest items ∧ SkipsPermitted manifest items)

variable {maxNesting reportBytes manifest capture}

/-- An entry without a textual outcome counts as failed. -/
theorem failed_of_no_outcome {item : WideJson} (hformed : WellFormedEntry item)
    (hmissing : ¬ HasOutcome item) : HasStatus item .failed := by
  cases item with
  | obj members =>
      refine ⟨members, rfl, ?_⟩
      unfold statusOf
      split
      next outcome hlookup => exact absurd ⟨outcome, hlookup⟩ hmissing
      next => rfl
  | _ => exact hformed.elim

theorem decision_of_failures (exitCode : Option Int) (report : TestReport) :
    (decision true exitCode report).outcome = .reject := by
  simp [decision]

/-- The entries of a report that is decided on are malformed for their outcomes only. -/
theorem malformed_of_judged {items : List WideJson}
    (htests : ReportTests maxNesting reportBytes items) (hjudged : Judged manifest items)
    (hmalformed : MalformedReport maxNesting reportBytes) : ∃ item ∈ items, ¬ HasOutcome item := by
  obtain ⟨members, hobject, hitems⟩ := htests
  rcases hmalformed with hnone | ⟨others, value, hothers, hvalue, hmalformed⟩
  · exact absurd hobject (hnone members)
  · obtain rfl := hobject.unique hothers
    obtain rfl := Option.some.inj (hitems.symm.trans hvalue)
    obtain ⟨item, hitem, hmalformed⟩ := hmalformed items rfl
    exact ⟨item, hitem, fun houtcome => hmalformed ⟨hjudged.wellFormed item hitem, houtcome⟩⟩

/-- The parser refuses malformed reports exactly when the report can be read and
no missing outcome passes for a failed test. -/
theorem refusesMalformed_iff : RefusesMalformed maxNesting reportBytes manifest capture ↔
    ¬ Unreadable maxNesting reportBytes ∧ OutcomesMissed maxNesting reportBytes manifest := by
  constructor
  · rintro ⟨parsed, hparse, hrefuses⟩
    refine ⟨parse_isOk_iff.mp ⟨parsed, hparse⟩, ?_⟩
    rintro items htests hformed ⟨item, hitem, hmissing⟩ ⟨hcollection, hskips⟩
    have hjudged : Judged manifest items := ⟨List.ne_nil_of_mem hitem, hformed, hcollection, hskips⟩
    rcases parse_cases hparse with ⟨others, ⟨hothers, _⟩, rfl⟩ | ⟨hnone, _⟩
    · obtain rfl := htests.unique hothers
      -- Nothing but an outcome is missing, so the entry counts as failed and the report is judged.
      have hfailures : hasFailures manifest (resultsOf items) = true := by
        rw [← Bool.not_eq_false, hasFailures_eq_false_iff]
        rintro ⟨hpassed, _⟩
        obtain ⟨testId, hid⟩ := (hformed item hitem).nodeId
        exact hpassed item hitem testId hid (failed_of_no_outcome (hformed item hitem) hmissing)
      obtain ⟨members, hobject, hlookup⟩ := htests
      have hmalformed : MalformedReport maxNesting reportBytes := by
        refine Or.inr ⟨members, .arr items, hobject, hlookup, ?_⟩
        rintro _ ⟨⟩
        exact ⟨item, hitem, fun hwell => hmissing hwell.2⟩
      have hinvalid := (hrefuses hmalformed).1
      rw [hfailures, decision_of_failures] at hinvalid
      cases hinvalid
    · exact hnone items ⟨htests, hjudged⟩
  · rintro ⟨hreadable, hmissed⟩
    obtain ⟨parsed, hparse⟩ := parse_isOk_iff.mpr hreadable
    refine ⟨parsed, hparse, ?_⟩
    intro hmalformed
    rcases parse_cases hparse with ⟨items, ⟨htests, hjudged⟩, rfl⟩ | ⟨_, hinvalid⟩
    -- a report that is judged is malformed for want of an outcome only
    · exact absurd ⟨hjudged.collection, hjudged.skips⟩ (hmissed items htests hjudged.wellFormed
        (malformed_of_judged htests hjudged hmalformed))
    · exact ⟨hinvalid, (parse_ok hparse).consistent.invalid (Or.inl hinvalid)⟩

end Refusal

/-! ## Two reports that are not refused -/

def openManifest : VerifierManifest where
  manifestHash := "manifest"
  mode := .compatibility
  command := []
  buildCommand := []
  expectedCollection := []
  parserId := pytestParserId
  reportPath := "report.json"
  payloadDigest := "payload"
  allowedEditPaths := []
  requiredPassIds := []
  permittedSkips := []
  timeoutSeconds := 60

def calmCapture : ExecutionCapture where
  attemptId := "attempt"
  exitCode := some 0
  timedOut := false
  oomKilled := some false
  cancelled := false
  buildExitCode := none
  stdoutHash := none
  stderrHash := none
  reportDigest := none
  truncated := false
  resources := ⟨none, none, none, none, none, none, none, none⟩
  runtimeError := none

/-- One test that took longer than any float. -/
def endlessReport : List UInt8 :=
  ascii "\x7b\"tests\":[\x7b\"nodeid\":\"a\",\"outcome\":\"passed\",\"duration\":1" ++
    List.replicate 309 48 ++ ascii "\x7d]\x7d"

/-- One test of which nothing is said. -/
def silentReport : List UInt8 :=
  ascii "\x7b\"tests\":[\x7b\"nodeid\":\"a\"\x7d]\x7d"

theorem silentReport_object : ReportObject 1000 (some silentReport)
    [(wide "tests", .arr [.obj [(wide "nodeid", .str (wide "a"))]])] :=
  ⟨silentReport, "\x7b\"tests\":[\x7b\"nodeid\":\"a\"\x7d]\x7d".toList, rfl, by decide +kernel,
    by rfl⟩

/-- The parser raises on the first report, whose duration is beyond the floats. It rejects on
the second one, where a missing outcome counts as a failure. -/
theorem malformed_not_refused :
    ¬ RefusesMalformed 1000 (some endlessReport) openManifest calmCapture ∧
      ¬ RefusesMalformed 1000 (some silentReport) openManifest calmCapture := by
  constructor
  · rintro ⟨parsed, hparse, _⟩
    have hraises : (parse 1000 (some endlessReport) openManifest calmCapture).isOk = false := by
      decide +kernel
    rw [hparse] at hraises
    cases hraises
  · rintro ⟨parsed, hparse, hrefuses⟩
    have hrejects : (parse 1000 (some silentReport) openManifest calmCapture).map
        ParsedOutcome.outcome = .ok .reject := by
      decide +kernel
    have hmalformed : MalformedReport 1000 (some silentReport) := by
      refine Or.inr ⟨_, _, silentReport_object, rfl, ?_⟩
      rintro _ ⟨⟩
      refine ⟨_, List.mem_cons_self, ?_⟩
      rintro ⟨_, outcome, houtcome⟩
      cases houtcome
    rw [hparse] at hrejects
    have hrejected : parsed.outcome = .reject := Except.ok.inj hrejects
    rw [(hrefuses hmalformed).1] at hrejected
    cases hrejected

end VerifierCI
