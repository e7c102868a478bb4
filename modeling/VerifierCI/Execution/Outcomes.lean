import VerifierCI.Evaluators.PytestReport

/-! # Execution outcomes

The classification of a capture, by precedence: a runtime error, a failed
build, a limit, and only then the report.
-/

namespace VerifierCI

open Python

/-- Does the text of a runtime error stand for a rejected patch? -/
def isPatchError (runtimeError : String) : Bool :=
  [ErrorCode.patchError.text, ErrorCode.protectionError.text,
      ErrorCode.validationError.text].contains runtimeError ||
    contains "patch".toList (lower runtimeError.toList)

def runtimeOutcome (runtimeError : String) (evidenceDigests : List String) : ParsedOutcome :=
  if isPatchError runtimeError then
    .invalid .invalidEvaluation ErrorCode.patchError.text none evidenceDigests
  else .invalid .error runtimeError none evidenceDigests

/-- The failed build or the exceeded limit a capture shows. -/
def limitError? (capture : ExecutionCapture) : Option ErrorCode :=
  if capture.buildExitCode.any (· ≠ 0) then some .buildError
  else if capture.cancelled then some .cancelled
  else if capture.timedOut then some .timeout
  else if capture.oomKilled = some true then some .resourceExhausted
  else if capture.truncated then some .artifactLimit
  else none

/-- A runtime error counts if its text is not empty. -/
def ExecutionCapture.runtimeError? (capture : ExecutionCapture) : Option String :=
  capture.runtimeError.filter (· ≠ "")

/-- Parse an execution capture into a domain outcome. -/
def parseCapture (maxNesting : Nat) (capture : ExecutionCapture) (manifest : VerifierManifest)
    (reportBytes : Option (List UInt8)) : Except Exc ParsedOutcome :=
  let evidenceDigests :=
    [capture.stdoutHash, capture.stderrHash, capture.reportDigest].filterMap id
  match capture.runtimeError? with
  | some runtimeError => .ok (runtimeOutcome runtimeError evidenceDigests)
  | none =>
      match limitError? capture with
      | some code => .ok (.invalid .invalidEvaluation code.text none evidenceDigests)
      | none =>
          if manifest.parserId = pytestParserId then do
            let result ← parse maxNesting reportBytes manifest capture
            .ok (if result.evidenceDigests.isEmpty && !evidenceDigests.isEmpty then
              { result with evidenceDigests := evidenceDigests } else result)
          else
            .ok (.invalid .invalidEvaluation ErrorCode.parserError.text none evidenceDigests)

/-- The report is what decides: nothing before it in the precedence does. -/
structure Parses (capture : ExecutionCapture) (manifest : VerifierManifest) : Prop where
  runtimeError : capture.runtimeError? = none
  limit : limitError? capture = none
  parser : manifest.parserId = pytestParserId

section

variable {maxNesting : Nat} {capture : ExecutionCapture} {manifest : VerifierManifest}
  {reportBytes : Option (List UInt8)}

theorem runtimeOutcome_parsed (runtimeError : String) (evidenceDigests : List String) :
    Parsed maxNesting reportBytes (runtimeOutcome runtimeError evidenceDigests) := by
  unfold runtimeOutcome
  split
  · exact .of_invalid (Or.inl rfl)
  · exact .of_invalid (Or.inr rfl)

theorem Parsed.withEvidence {parsed : ParsedOutcome} (h : Parsed maxNesting reportBytes parsed)
    (evidenceDigests : List String) :
    Parsed maxNesting reportBytes { parsed with evidenceDigests := evidenceDigests } :=
  ⟨⟨h.consistent.valid, h.consistent.invalid⟩, h.counted, h.decided⟩

/-- The parser is the only part of the classification that raises. -/
theorem parseCapture_isOk_iff :
    (∃ parsed, parseCapture maxNesting capture manifest reportBytes = .ok parsed) ↔
      ¬ (Parses capture manifest ∧ Unreadable maxNesting reportBytes) := by
  by_cases hparses : Parses capture manifest
  · have heq : (∃ parsed, parseCapture maxNesting capture manifest reportBytes = .ok parsed) ↔
        ∃ parsed, parse maxNesting reportBytes manifest capture = .ok parsed := by
      simp only [parseCapture, hparses.runtimeError, hparses.limit, if_pos hparses.parser]
      constructor
      · rintro ⟨parsed, h⟩
        obtain ⟨result, hresult, _⟩ := bind_eq_ok.mp h
        exact ⟨result, hresult⟩
      · rintro ⟨result, hresult⟩
        exact ⟨_, bind_eq_ok.mpr ⟨result, hresult, rfl⟩⟩
    rw [heq, parse_isOk_iff, not_and]
    exact ⟨fun h _ => h, fun h => h hparses⟩
  · apply iff_of_true
    · unfold parseCapture
      dsimp only
      split
      · exact ⟨_, rfl⟩
      next hruntime =>
        split
        · exact ⟨_, rfl⟩
        next hlimit =>
          split
          next hparser => exact absurd ⟨hruntime, hlimit, hparser⟩ hparses
          · exact ⟨_, rfl⟩
    · exact fun h => hparses h.1

/-- Before the parser is asked, every branch gives an invalid classification. -/
theorem parseCapture_parsed {parsed : ParsedOutcome}
    (h : parseCapture maxNesting capture manifest reportBytes = .ok parsed) :
    Parsed maxNesting reportBytes parsed := by
  unfold parseCapture at h
  dsimp only at h
  split at h
  · obtain rfl := Except.ok.inj h
    exact runtimeOutcome_parsed _ _
  · split at h
    · obtain rfl := Except.ok.inj h
      exact .of_invalid (Or.inl rfl)
    · split at h
      · obtain ⟨result, hresult, h⟩ := bind_eq_ok.mp h
        obtain rfl := Except.ok.inj h
        split
        · exact (parse_ok hresult).withEvidence _
        · exact parse_ok hresult
      · obtain rfl := Except.ok.inj h
        exact .of_invalid (Or.inl rfl)

/-- A decision comes from the report, and nothing before it in the precedence. -/
theorem parseCapture_valid {parsed : ParsedOutcome}
    (h : parseCapture maxNesting capture manifest reportBytes = .ok parsed)
    (hvalid : parsed.evaluationValidity = .valid) : Parses capture manifest := by
  unfold parseCapture at h
  dsimp only at h
  split at h
  · obtain rfl := Except.ok.inj h
    unfold runtimeOutcome at hvalid
    split at hvalid <;> cases hvalid
  next hruntime =>
    split at h
    · obtain rfl := Except.ok.inj h
      cases hvalid
    next hlimit =>
      split at h
      next hparser => exact ⟨hruntime, hlimit, hparser⟩
      · obtain rfl := Except.ok.inj h
        cases hvalid

end

end VerifierCI
