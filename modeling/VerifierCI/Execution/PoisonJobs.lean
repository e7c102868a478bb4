import VerifierCI.Execution.Turns

/-! # Poison jobs

Preparation catches everything, what follows catches nothing: a token that is
no whole placeholder, a log that cannot be written or read, a report path the
operating system refuses and a report the parser raises on all leave `run_one`
with an exception, and with it the loop over the queue. On every other job a
turn ends in a commit.
-/

namespace VerifierCI

open Python Relational

/-! ## When a turn survives its job -/

section Survival

variable (sha256 : List UInt8 → Digest) (maxNesting : Nat) (worker : Worker) (turn : Turn)
  (attemptId : String)

/-- The verification ends in time and within its limits, and this is what the
parser gets to see of its report. -/
structure ReportDecides (manifest : VerifierManifest) (content : List UInt8) : Prop where
  built : ¬ BuildFails worker turn attemptId manifest
  found : reportBytesOf (some manifest) (leftFiles worker turn attemptId manifest) = some content
  launched : (verificationProcess worker turn attemptId manifest).launchError = none
  inTime : (verificationProcess worker turn attemptId manifest).timedOut = false
  stdout : (streamBytes (verificationProcess worker turn attemptId
    manifest).stdout.flagged).length ≤ defaultMaxCaptureBytes
  stderr : (streamBytes (verificationProcess worker turn attemptId
    manifest).stderr.flagged).length ≤ defaultMaxCaptureBytes
  size : ∀ bytes ∈ (finalReport worker turn attemptId manifest).bytes?,
    bytes.length ≤ defaultMaxCaptureBytes
  parser : manifest.parserId = pytestParserId

/-- The data of a job that no turn trips over. -/
def Survivable : Prop :=
  turn.removable = true ∧
    match turn.preparation with
    | .failed manifest _ => turn.captureDir ≠ .refused ∧
        ∀ resolved ∈ manifest, turn.refuses resolved.reportPath = false
    | .ready manifest => CommandsRun worker turn attemptId manifest ∧
        Collectable (some manifest) (leftFiles worker turn attemptId manifest) ∧
        ∀ content, ReportDecides worker turn attemptId manifest content →
          ¬ Unreadable maxNesting (some content)

variable {sha256 maxNesting worker turn attemptId} {manifest : VerifierManifest}

theorem streamsTruncated_eq_false_iff {process : Process} (hlaunched : process.launchError = none) :
    process.streamsTruncated = false ↔
      (streamBytes process.stdout.flagged).length ≤ defaultMaxCaptureBytes ∧
        (streamBytes process.stderr.flagged).length ≤ defaultMaxCaptureBytes := by
  simp only [Process.streamsTruncated, hlaunched, captureStream_eq, Option.isNone_none,
    Bool.true_and, Bool.or_eq_false_iff, decide_eq_false_iff_not, Nat.not_lt]

theorem capture_runtimeError?_eq_none_iff {process : Process} {report : Option (List UInt8)} :
    (process.capture sha256 attemptId report).runtimeError? = none ↔
      process.launchError = none := by
  cases hlaunch : process.launchError with
  | none => simp [ExecutionCapture.runtimeError?, Process.capture, hlaunch]
  | some text =>
      simp [ExecutionCapture.runtimeError?, Process.capture, hlaunch]

/-- The parser is asked only if the process ended in time and neither its streams nor its report
were cut. -/
theorem capture_limitError?_eq_none_iff {process : Process} {report : Option (List UInt8)}
    (hlaunched : process.launchError = none) :
    limitError? (process.capture sha256 attemptId report) = none ↔
      process.timedOut = false ∧ process.streamsTruncated = false ∧
        ∀ content ∈ report, content.length ≤ defaultMaxCaptureBytes := by
  cases htimedOut : process.timedOut with
  | true => simp [limitError?, Process.capture, hlaunched, htimedOut]
  | false =>
      cases htruncated : process.streamsTruncated with
      | true => simp [limitError?, Process.capture, hlaunched, htimedOut, htruncated]
      | false =>
          cases report <;>
            simp [limitError?, Process.capture, hlaunched, htimedOut, htruncated]

/-- The classification gets to the report when the report decides. -/
theorem parses_finalCapture_iff (P : Option (List UInt8) → Prop) (hnone : ¬ P none) :
    Parses (finalCapture worker turn attemptId manifest sha256) manifest ∧
        P (reportBytesOf (some manifest) (leftFiles worker turn attemptId manifest)) ↔
      ∃ content, ReportDecides worker turn attemptId manifest content ∧ P (some content) := by
  by_cases hfails : BuildFails worker turn attemptId manifest
  · apply iff_of_false
    · rintro ⟨hparses, _⟩
      -- a failed build replaces the capture, and with it every report
      have hlimit := hparses.limit
      rw [finalCapture, if_pos hfails] at hlimit
      simp [limitError?, buildFailedCapture, hfails.2] at hlimit
    · rintro ⟨content, hdecides, _⟩
      exact hdecides.built hfails
  · rw [finalCapture, if_neg hfails]
    cases hfound : reportBytesOf (some manifest) (leftFiles worker turn attemptId manifest) with
    | none =>
        apply iff_of_false
        · exact fun h => hnone h.2
        · rintro ⟨content, hdecides, _⟩
          rw [hdecides.found] at hfound
          cases hfound
    | some content =>
        constructor
        · rintro ⟨hparses, hreport⟩
          have hlaunched := capture_runtimeError?_eq_none_iff.mp hparses.runtimeError
          obtain ⟨htime, hstreams, hsize⟩ :=
            (capture_limitError?_eq_none_iff hlaunched).mp hparses.limit
          obtain ⟨hstdout, hstderr⟩ := (streamsTruncated_eq_false_iff hlaunched).mp hstreams
          exact ⟨content, ⟨hfails, hfound, hlaunched, htime, hstdout, hstderr, hsize,
            hparses.parser⟩, hreport⟩
        · rintro ⟨other, hdecides, hreport⟩
          obtain rfl : content = other := Option.some.inj (hfound.symm.trans hdecides.found)
          refine ⟨⟨capture_runtimeError?_eq_none_iff.mpr hdecides.launched, ?_,
            hdecides.parser⟩, hreport⟩
          exact (capture_limitError?_eq_none_iff hdecides.launched).mpr ⟨hdecides.inTime,
            (streamsTruncated_eq_false_iff hdecides.launched).mpr ⟨hdecides.stdout,
              hdecides.stderr⟩, hdecides.size⟩

theorem freshFiles_reportBytes (manifest : Option VerifierManifest) :
    reportBytesOf manifest turn.freshFiles = none := by
  unfold reportBytesOf reportLookup
  cases manifest with
  | none => rfl
  | some manifest =>
      simp only [AttemptFiles.report, Turn.freshFiles]
      cases turn.refuses manifest.reportPath <;> rfl

/-- There is nothing to collect where nothing has run. -/
theorem freshFiles_collectable (manifest : Option VerifierManifest) :
    Collectable manifest turn.freshFiles ↔
      turn.captureDir ≠ .refused ∧
        ∀ resolved ∈ manifest, turn.refuses resolved.reportPath = false := by
  have hlogs : ∀ log, turn.freshFiles.log log =
      if turn.captureDir = .refused then .refused else .missing := by
    intro log
    simp only [AttemptFiles.log, Turn.freshFiles]
    cases turn.captureDir <;> rfl
  have hreport : reportLookup manifest turn.freshFiles ≠ .refused ↔
      ∀ resolved ∈ manifest, turn.refuses resolved.reportPath = false := by
    cases manifest with
    | none => simp [reportLookup]
    | some manifest =>
        simp only [reportLookup, AttemptFiles.report, Turn.freshFiles, Option.mem_def,
          Option.some.injEq, forall_eq']
        cases turn.refuses manifest.reportPath <;> simp [Entry.found]
  rw [← hreport]
  constructor
  · intro h
    refine ⟨fun hrefused => h.logs .stdout ?_, h.report⟩
    rw [hlogs, if_pos hrefused]
  · rintro ⟨hdir, hlookup⟩
    refine ⟨fun log => ?_, fun log bytes hbytes => ?_, hlookup⟩
    · rw [hlogs, if_neg hdir]
      exact Found.noConfusion
    · rw [logBytesOf, hlogs, if_neg hdir] at hbytes
      cases hbytes

/-- Nothing raises exactly on the data of a survivable job. -/
theorem survives_iff :
    Survives sha256 maxNesting worker turn attemptId ∧ turn.removable = true ↔
      Survivable maxNesting worker turn attemptId := by
  rw [and_comm]
  unfold Survivable
  refine and_congr_right fun _ => ?_
  cases hpreparation : turn.preparation with
  -- A turn that fails while it is prepared runs nothing and leaves no report.
  | failed manifest raised =>
      have hexecuted : executed sha256 worker turn attemptId =
          (manifest, failedCapture attemptId raised.runtimeError, turn.freshFiles) :=
        executed_of_failed hpreparation
      have hruns : AttemptRuns worker turn attemptId := by
        rw [AttemptRuns, hpreparation]
        exact trivial
      refine Iff.trans ?_ (freshFiles_collectable manifest)
      constructor
      · intro h
        have houtputs := h.outputs
        rw [hexecuted] at houtputs
        exact houtputs
      · intro h
        refine ⟨hruns, by rw [hexecuted]; exact h, ?_⟩
        rw [hexecuted]
        rintro ⟨_, _, _, hunreadable⟩
        rw [freshFiles_reportBytes] at hunreadable
        exact not_unreadable_none hunreadable
  | ready manifest =>
      have hexecuted : executed sha256 worker turn attemptId = (some manifest,
          finalCapture worker turn attemptId manifest sha256,
          leftFiles worker turn attemptId manifest) := executed_of_ready hpreparation
      -- Of what the files hold, only the bytes of the report can make the parser raise.
      have hraises : ReportRaises maxNesting (some manifest)
          (finalCapture worker turn attemptId manifest sha256)
          (reportBytesOf (some manifest) (leftFiles worker turn attemptId manifest)) ↔
            ∃ content, ReportDecides worker turn attemptId manifest content ∧
              Unreadable maxNesting (some content) := by
        rw [← parses_finalCapture_iff (Unreadable maxNesting) not_unreadable_none]
        constructor
        · rintro ⟨other, hother, h⟩
          obtain rfl := Option.some.inj hother
          exact h
        · exact fun h => ⟨manifest, rfl, h⟩
      constructor
      · rintro ⟨hcommands, houtputs, hreport⟩
        rw [AttemptRuns, hpreparation] at hcommands
        rw [hexecuted] at houtputs hreport
        refine ⟨hcommands, houtputs, ?_⟩
        intro content hdecides hunreadable
        exact hreport (hraises.mpr ⟨content, hdecides, hunreadable⟩)
      · rintro ⟨hcommands, houtputs, hreport⟩
        refine ⟨by rw [AttemptRuns, hpreparation]; exact hcommands,
          by rw [hexecuted]; exact houtputs, ?_⟩
        rw [hexecuted]
        intro h
        obtain ⟨content, hdecides, hunreadable⟩ := hraises.mp h
        exact hreport content hdecides hunreadable

/-! ## What a decision rests on -/

section Decision

variable (maxNesting worker turn attemptId)

/-- A decision that nothing in the job's data forbids: the commands ran and the
report is well formed. -/
def Sound : Prop :=
  ∃ manifest content, turn.preparation = .ready manifest ∧
    ReportDecides worker turn attemptId manifest content ∧
    ∃ reading, readReport maxNesting (some content) = .ok reading ∧ reading.WellFormed

variable {maxNesting worker turn attemptId}

theorem not_wellFormed_none :
    ¬ ∃ reading, readReport maxNesting none = .ok reading ∧ reading.WellFormed := by
  rintro ⟨reading, hreading, hformed⟩
  obtain rfl := Except.ok.inj hreading
  exact hformed

/-- A decision needs a report that decides, and that is read only where everything before it
went well. -/
theorem TurnClassified.sound {parsed : ParsedOutcome}
    (h : TurnClassified sha256 maxNesting worker turn attemptId parsed)
    (hvalid : parsed.evaluationValidity = .valid) : Sound maxNesting worker turn attemptId := by
  obtain ⟨_, hparsed, hparses⟩ := classify_ok h
  have hdecided := hparsed.decided hvalid
  obtain ⟨resolved, hresolved, hparses⟩ := hparses hvalid
  simp only [turnCollected, collectedOf] at hdecided
  cases hpreparation : turn.preparation with
  | failed manifest raised =>
      rw [executed_of_failed hpreparation, freshFiles_reportBytes] at hdecided
      exact absurd hdecided not_wellFormed_none
  | ready manifest =>
      have hexecuted : executed sha256 worker turn attemptId = (some manifest,
          finalCapture worker turn attemptId manifest sha256,
          leftFiles worker turn attemptId manifest) := executed_of_ready hpreparation
      rw [hexecuted] at hdecided hresolved hparses
      obtain rfl := Option.some.inj hresolved
      obtain ⟨content, hdecides, hreading⟩ := (parses_finalCapture_iff
        (fun bytes => ∃ reading, readReport maxNesting bytes = .ok reading ∧ reading.WellFormed)
        not_wellFormed_none).mp ⟨hparses, hdecided⟩
      exact ⟨manifest, content, hpreparation, hdecides, hreading⟩

end Decision

end Survival

/-! ## No poison job -/

section Poison

variable (sha256 : List UInt8 → Digest) (maxNesting : Nat) (worker : Worker)
  (runId : Option String)

/-- A turn that claims a job ends in a commit, and decides only on sound data. -/
def Handled (turn : Turn) (store : ArtifactStore) : Prop :=
  ∀ job, (turnClaim worker runId turn store).1 = .ok (some job) →
    ∃ submission store', runOne sha256 maxNesting worker runId turn store =
        (.ok (some submission), store') ∧
      submission.status = .committed ∧
      (submission.attempt.evaluationValidity = .valid →
        Sound maxNesting worker turn (turn.attemptId job))

/-- The calls of `run_one` that the loop makes, with what they start from. -/
def turnCalls : List Turn → ArtifactStore → List (Turn × ArtifactStore)
  | [], _ => []
  | turn :: rest, store =>
      (turn, store) ::
        match runOne sha256 maxNesting worker runId turn store with
        | (.ok (some _), store') => turnCalls rest store'
        | _ => []

/-- Every turn handles its job, and the loop ends with nothing pending unless
it runs out of iterations. -/
structure Unpoisoned (turns : List Turn) (store : ArtifactStore) : Prop where
  handled : ∀ call ∈ turnCalls sha256 maxNesting worker runId turns store,
    Handled sha256 maxNesting worker runId call.1 call.2
  terminal : ∃ count store', runUntilTerminal sha256 maxNesting worker runId turns store =
      (.ok count, store') ∧
    (count < turns.length → nextPending store'.db runId = none)

/-- No job that is claimed trips over its own data. -/
def AllSurvivable (turns : List Turn) (store : ArtifactStore) : Prop :=
  ∀ call ∈ turnCalls sha256 maxNesting worker runId turns store, ∀ job,
    (turnClaim worker runId call.1 call.2).1 = .ok (some job) →
      Survivable maxNesting worker call.1 (call.1.attemptId job)

variable {sha256 maxNesting worker runId} {turn : Turn} {store : ArtifactStore}

/-- A turn under a live lease handles its job, or raises and cannot survive. -/
theorem runOne_handled (hdb : store.db.Reachable)
    (hworks : Works sha256 maxNesting worker runId turn store) {job : Job}
    (hjob : (turnClaim worker runId turn store).1 = .ok (some job)) :
    (¬ Survivable maxNesting worker turn (turn.attemptId job) ∧
      ¬ Handled sha256 maxNesting worker runId turn store) ∨
    (Survivable maxNesting worker turn (turn.attemptId job) ∧
      Handled sha256 maxNesting worker runId turn store ∧
      ∃ submission store', store'.db.Reachable ∧
        runOne sha256 maxNesting worker runId turn store = (.ok (some submission), store')) := by
  obtain ⟨store', hreachable, ⟨hnot, exc, hrun⟩ | ⟨hsurvives, handle, lease, parsed, hclassified,
    hrun⟩⟩ := runOne_of_live hdb hjob (hworks.live job hjob)
  · refine Or.inl ⟨fun h => hnot (survives_iff.mpr h), ?_⟩
    intro hhandled
    obtain ⟨submission, _, hok, _⟩ := hhandled job hjob
    rw [hrun] at hok
    cases (Prod.mk.inj hok).1
  · refine Or.inr ⟨survives_iff.mp hsurvives, ?_, _, store', hreachable, hrun⟩
    intro other hother
    obtain rfl := Option.some.inj (Except.ok.inj (hjob.symm.trans hother))
    exact ⟨_, store', hrun, rfl, hclassified.sound⟩

/-- A turn that raises, or finds nothing to claim, is the last one of the loop. -/
theorem turnCalls_stop {rest : List Turn}
    (hstop : ∀ submission store',
      runOne sha256 maxNesting worker runId turn store ≠ (.ok (some submission), store')) :
    turnCalls sha256 maxNesting worker runId (turn :: rest) store = [(turn, store)] := by
  unfold turnCalls
  split
  next submission store' heq => exact absurd heq (hstop submission store')
  · rfl

section Continue

variable {rest : List Turn} {submission : Submission} {store' : ArtifactStore}
  (hrun : runOne sha256 maxNesting worker runId turn store = (.ok (some submission), store'))

include hrun

theorem turnCalls_continue : turnCalls sha256 maxNesting worker runId (turn :: rest) store =
    (turn, store) :: turnCalls sha256 maxNesting worker runId rest store' := by
  simp only [turnCalls, hrun]

/-- A turn that hands in its job passes the loop on to the turns behind it. -/
theorem unpoisoned_continue : Unpoisoned sha256 maxNesting worker runId (turn :: rest) store ↔
    Handled sha256 maxNesting worker runId turn store ∧
      Unpoisoned sha256 maxNesting worker runId rest store' := by
  constructor
  · rintro ⟨hhandled, count, last, hloop, hdrained⟩
    rw [turnCalls_continue hrun, List.forall_mem_cons] at hhandled
    refine ⟨hhandled.1, hhandled.2, ?_⟩
    simp only [runUntilTerminal, hrun] at hloop
    split at hloop
    · cases (Prod.mk.inj hloop).1
    next fewer _ heq =>
      obtain ⟨hcount, rfl⟩ := Prod.mk.inj hloop
      obtain rfl := Except.ok.inj hcount
      exact ⟨fewer, _, heq, fun hlt => hdrained (Nat.succ_lt_succ hlt)⟩
  · rintro ⟨hfirst, hhandled, count, last, hloop, hdrained⟩
    refine ⟨?_, count + 1, last, ?_, fun hlt => hdrained (Nat.lt_of_succ_lt_succ hlt)⟩
    · rw [turnCalls_continue hrun, List.forall_mem_cons]
      exact ⟨hfirst, hhandled⟩
    · simp only [runUntilTerminal, hrun, hloop]

theorem allSurvivable_continue {job : Job}
    (hjob : (turnClaim worker runId turn store).1 = .ok (some job)) :
    AllSurvivable sha256 maxNesting worker runId (turn :: rest) store ↔
      Survivable maxNesting worker turn (turn.attemptId job) ∧
        AllSurvivable sha256 maxNesting worker runId rest store' := by
  rw [AllSurvivable, turnCalls_continue hrun, List.forall_mem_cons]
  refine and_congr ?_ Iff.rfl
  constructor
  · exact fun h => h job hjob
  · intro h other hother
    obtain rfl := Option.some.inj (Except.ok.inj (hjob.symm.trans hother))
    exact h

end Continue

/-- A turn that finds nothing to claim ends the loop with nothing pending. -/
theorem unpoisoned_empty {rest : List Turn}
    (hnone : (turnClaim worker runId turn store).1 = .ok none) :
    Unpoisoned sha256 maxNesting worker runId (turn :: rest) store ∧
      AllSurvivable sha256 maxNesting worker runId (turn :: rest) store := by
  have hrun : runOne sha256 maxNesting worker runId turn store =
      (.ok none, { store with db := (turnClaim worker runId turn store).2 }) := runOne_empty hnone
  have hcalls :
      turnCalls sha256 maxNesting worker runId (turn :: rest) store = [(turn, store)] := by
    apply turnCalls_stop
    intro submission store' h
    rw [hrun] at h
    cases (Prod.mk.inj h).1
  have hvacuous : ∀ job, (turnClaim worker runId turn store).1 ≠ .ok (some job) := by
    intro job h
    rw [hnone] at h
    cases h
  constructor
  · refine ⟨?_, 0, { store with db := (turnClaim worker runId turn store).2 }, ?_, ?_⟩
    · rw [hcalls]
      intro call hcall job hjob
      obtain rfl := List.mem_singleton.mp hcall
      exact absurd hjob (hvacuous job)
    · simp only [runUntilTerminal, hrun]
    · exact fun _ => claimLoop_none (claim_ok hnone)
  · rw [AllSurvivable, hcalls]
    intro call hcall job hjob
    obtain rfl := List.mem_singleton.mp hcall
    exact absurd hjob (hvacuous job)

theorem turnCalls_singleton {call : Turn × ArtifactStore}
    (hcall : call ∈ turnCalls sha256 maxNesting worker runId [turn] store) :
    call = (turn, store) := by
  unfold turnCalls at hcall
  split at hcall <;> exact List.mem_singleton.mp hcall

def quietTurns : List Turn :=
  [plainTurn (.ok (plainManifest [] ["pytest"])) quietProcess quietProcess]

/-- The template names the report by a placeholder within a token. -/
def partialTurns : List Turn :=
  [plainTurn (.ok (plainManifest [] ["pytest", "--report=\x7bout\x7d/report.json"])) quietProcess
    quietProcess]

end Poison

end VerifierCI
