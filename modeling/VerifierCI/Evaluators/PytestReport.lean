import Mathlib.Data.List.Sort
import VerifierCI.Errors
import VerifierCI.Models.Capture
import VerifierCI.Models.Verifier
import VerifierCI.Python.FloatParse
import VerifierCI.Python.PlainLoads

/-! # The pytest report parser

A report is read item by item and then judged against the manifest. Reading
can raise: on a text that nests too deeply, and on an integer duration that no
float can hold.
-/

namespace VerifierCI

open Python

/-- `pytest-report-v1`. -/
def pytestParserId : String := "pytest-report-v1"

/-! ## Reading -/

/-- `not text.strip()`. A lone surrogate is no white space. -/
def isBlankText (text : WideString) : Bool :=
  (narrow? text).any fun text => (strip text.toList).isEmpty

/-- `text.lower()`, if it is without a lone surrogate, which stays what it is. -/
def lowerText? (text : WideString) : Option (List Char) :=
  (narrow? text).map fun text => lower text.toList

/-- `float(text)`. A lone surrogate fits nowhere in a number. -/
def floatOfText? (text : WideString) : Option PyFloat := do
  let text ← narrow? text
  PyFloat.ofText? text

/-- `t.get("nodeid")`, which has to be a string that is not blank. -/
def nodeid? (members : List (WideString × WideJson)) : Option WideString :=
  match members.lookup (wide "nodeid") with
  | some (.str nodeid) => if isBlankText nodeid then none else some nodeid
  | _ => none

/-- `str(t.get("outcome", "failed")).lower()` as a status. The text of a value
that is no string is neither of the two words. -/
def statusOf (members : List (WideString × WideJson)) : TestStatus :=
  match members.lookup (wide "outcome") with
  | some (.str outcome) =>
      if lowerText? outcome = some "passed".toList then .passed
      else if lowerText? outcome = some "skipped".toList then .skipped
      else .failed
  | _ => .failed

/-- The value of a duration, and whether it is a parser error. Only `TypeError`
and `ValueError` are caught. The two conversions are arguments. -/
def convertDuration (ofInt? : Int → Option PyFloat) (ofText? : WideString → Option PyFloat) :
    Option WideJson → Except Exc (Option PyFloat × Bool)
  | none | some .null => .ok (none, false)
  | some (.bool value) => .ok (ofInt? (if value then 1 else 0), false)
  | some (.int value) =>
      match ofInt? value with
      | some duration => .ok (some duration, false)
      | none => .error .overflowError
  | some (.float duration) => .ok (some duration, false)
  | some (.str text) => .ok (ofText? text, (ofText? text).isNone)
  | some (.arr _) | some (.obj _) => .ok (none, true)

/-- `float(t["duration"])`, if there is one. -/
def durationOf (members : List (WideString × WideJson)) : Except Exc (Option PyFloat × Bool) :=
  convertDuration PyFloat.ofInt? floatOfText? (members.lookup (wide "duration"))

/-- The test results of a list of items, and whether some duration is a parser
error; `none` if an item is malformed. -/
def readTests : List WideJson → Except Exc (Option (List TestResult × Bool))
  | [] => .ok (some ([], false))
  | .obj members :: rest =>
      match nodeid? members with
      | none => .ok none
      | some nodeid => do
          let (duration, parserError) ← durationOf members
          let result : TestResult :=
            { testId := nodeid
              status := statusOf members
              duration := duration
              failureDigest := none }
          match ← readTests rest with
          | none => .ok none
          | some (results, restError) => .ok (some (result :: results, parserError || restError))
  | _ :: _ => .ok none

/-- What the bytes of a report amount to. -/
inductive Reading where
  /-- No bytes, or white space only. -/
  | empty
  | malformed
  | tests (results : List TestResult) (parserError : Bool)
deriving DecidableEq, Repr

def readData : WideJson → Except Exc Reading
  | .obj members =>
      match members.lookup (wide "tests") with
      | none => .ok (.tests [] false)
      | some (.arr items) => do
          match ← readTests items with
          | none => .ok .malformed
          | some (results, parserError) => .ok (.tests results parserError)
      | some _ => .ok .malformed
  | _ => .ok .malformed

/-- The interpreter's nesting limit is an argument. -/
def readReport (maxNesting : Nat) (reportBytes : Option (List UInt8)) : Except Exc Reading :=
  match reportBytes with
  | none => .ok .empty
  | some bytes =>
      if isBlank bytes then .ok .empty
      else
        match decodeUtf8? bytes with
        | none => .ok .malformed
        | some text =>
            match WideJson.loadsPlain maxNesting text with
            | .error .valueError => .ok .malformed
            | .error .recursionError => .error .recursionError
            | .ok data => readData data

/-! ## Judging -/

def reportOf (results : List TestResult) : TestReport where
  schemaVersion := "1.0.0"
  collectedIds := results.map TestResult.testId
  results := results
  completed := true
  runnerError := none

/-- `results_map.get(test_id)`: of two results with one id the later counts. -/
def statusOfId (results : List TestResult) (testId : WideString) : Option TestStatus :=
  (results.reverse.find? fun result => result.testId = testId).map TestResult.status

/-- The collection differs from what the manifest expects, as a set or as a
sorted list. -/
def collectionMismatch (manifest : VerifierManifest) (collected : List WideString) : Bool :=
  let expected := manifest.expectedCollection.map wide
  !expected.isEmpty &&
    (!(expected.all (collected.contains ·) && collected.all (expected.contains ·)) ||
      expected.insertionSort (· ≤ ·) ≠ collected.insertionSort (· ≤ ·))

/-- A test failed, or one that is required did not pass. -/
def hasFailures (manifest : VerifierManifest) (results : List TestResult) : Bool :=
  (results.any fun result => result.status = .failed) ||
    manifest.requiredPassIds.any fun testId => statusOfId results (wide testId) ≠ some .passed

def decision (failures : Bool) (exitCode : Option Int) (report : TestReport) : ParsedOutcome :=
  if !failures && exitCode.any (· ≠ 0) then
    .invalid .invalidEvaluation "EXIT_REPORT_MISMATCH" (some report) []
  else if failures then
    { outcome := .reject
      evaluationValidity := .valid
      errorCode := if exitCode = some 0 then some "EXIT_REPORT_MISMATCH" else none
      report := some report
      evidenceDigests := [] }
  else
    { outcome := .accept
      evaluationValidity := .valid
      errorCode := none
      report := some report
      evidenceDigests := [] }

def judge (manifest : VerifierManifest) (exitCode : Option Int) (results : List TestResult) :
    ParsedOutcome :=
  let report := reportOf results
  if results.isEmpty then
    .invalid .invalidEvaluation ErrorCode.emptyCollection.text (some report) []
  else if collectionMismatch manifest report.collectedIds then
    .invalid .invalidEvaluation ErrorCode.collectionMismatch.text (some report) []
  else if results.any fun result =>
      result.status = .skipped && !(manifest.permittedSkips.map wide).contains result.testId then
    .invalid .invalidEvaluation ErrorCode.collectionMismatch.text (some report) []
  else decision (hasFailures manifest results) exitCode report

/-- Parse raw report bytes and classify the outcome according to test results. -/
def parse (maxNesting : Nat) (reportBytes : Option (List UInt8)) (manifest : VerifierManifest)
    (capture : ExecutionCapture) : Except Exc ParsedOutcome := do
  match ← readReport maxNesting reportBytes with
  | .empty => .ok (.invalid .invalidEvaluation ErrorCode.emptyCollection.text none [])
  | .malformed => .ok (.invalid .invalidEvaluation ErrorCode.parserError.text none [])
  | .tests results true =>
      .ok (.invalid .invalidEvaluation ErrorCode.parserError.text (some (reportOf results)) [])
  | .tests results false => .ok (judge manifest capture.exitCode results)

/-! ## What a reading can raise -/

section Raising

def Named : WideJson → Prop
  | .obj members => (nodeid? members).isSome = true
  | _ => False

/-- An item whose duration is an integer beyond the floats. -/
def HugeDuration : WideJson → Prop
  | .obj members =>
      ∃ value, members.lookup (wide "duration") = some (.int value) ∧ PyFloat.ofInt? value = none
  | _ => False

/-- A duration no float can hold, with nothing malformed up to it. -/
def Overflows (items : List WideJson) : Prop :=
  ∃ before item after, items = before ++ item :: after ∧ (∀ other ∈ before, Named other) ∧
    Named item ∧ HugeDuration item

theorem convertDuration_isOk_iff {ofInt? : Int → Option PyFloat}
    {ofText? : WideString → Option PyFloat} {found : Option WideJson} :
    (∃ duration, convertDuration ofInt? ofText? found = .ok duration) ↔
      ¬ ∃ value, found = some (.int value) ∧ ofInt? value = none := by
  cases found with
  | none => simp [convertDuration]
  | some found =>
      cases found with
      | int value => cases hfloat : ofInt? value <;> simp [convertDuration, hfloat]
      | _ => simp [convertDuration]

theorem durationOf_isOk_iff {members : List (WideString × WideJson)} :
    (∃ duration, durationOf members = .ok duration) ↔ ¬ HugeDuration (.obj members) :=
  convertDuration_isOk_iff

/-- An item is only looked at if everything before it is well formed. -/
theorem overflows_cons {item : WideJson} {rest : List WideJson} :
    Overflows (item :: rest) ↔ Named item ∧ (HugeDuration item ∨ Overflows rest) := by
  constructor
  · rintro ⟨before, huge, after, hsplit, hnamed, hitem, hhuge⟩
    cases before with
    | nil =>
        obtain ⟨rfl, rfl⟩ := List.cons.inj hsplit
        exact ⟨hitem, Or.inl hhuge⟩
    | cons first before =>
        obtain ⟨rfl, rfl⟩ := List.cons.inj hsplit
        obtain ⟨hfirst, hbefore⟩ := List.forall_mem_cons.mp hnamed
        exact ⟨hfirst, Or.inr ⟨before, huge, after, rfl, hbefore, hitem, hhuge⟩⟩
  · rintro ⟨hnamed, hhuge | ⟨before, huge, after, rfl, hbefore, hitem, hhuge⟩⟩
    · exact ⟨[], item, rest, rfl, by simp, hnamed, hhuge⟩
    · exact ⟨item :: before, huge, after, rfl, List.forall_mem_cons.mpr ⟨hnamed, hbefore⟩, hitem,
        hhuge⟩

/-- The loop raises at the first duration beyond the floats, unless a malformed item ends it
before. -/
theorem readTests_isOk_iff {items : List WideJson} :
    (∃ reading, readTests items = .ok reading) ↔ ¬ Overflows items := by
  induction items with
  | nil =>
      apply iff_of_true ⟨_, rfl⟩
      rintro ⟨before, item, after, hsplit, _⟩
      simp at hsplit
  | cons item rest ih =>
      rw [overflows_cons]
      cases item with
      | obj members =>
          cases hnodeid : nodeid? members with
          | none => simp [readTests, Named, hnodeid]
          | some nodeid =>
              have hnamed : Named (.obj members) := by simp [Named, hnodeid]
              simp only [hnamed, true_and, not_or, ← ih, ← durationOf_isOk_iff]
              simp only [readTests, hnodeid]
              constructor
              · rintro ⟨reading, h⟩
                obtain ⟨duration, hduration, h⟩ := bind_eq_ok.mp h
                obtain ⟨read, hread, _⟩ := bind_eq_ok.mp h
                exact ⟨⟨duration, hduration⟩, read, hread⟩
              · rintro ⟨⟨duration, hduration⟩, read, hread⟩
                cases read with
                | none => exact ⟨none, bind_eq_ok.mpr ⟨duration, hduration,
                    bind_eq_ok.mpr ⟨none, hread, rfl⟩⟩⟩
                | some read => exact ⟨_, bind_eq_ok.mpr ⟨duration, hduration,
                    bind_eq_ok.mpr ⟨some read, hread, rfl⟩⟩⟩
      | _ => simp [readTests, Named]

/-- A report whose tests hold a duration that overflows. -/
def DataOverflows (data : WideJson) : Prop :=
  ∃ members items, data = .obj members ∧ members.lookup (wide "tests") = some (.arr items) ∧
    Overflows items

theorem readData_isOk_iff (data : WideJson) :
    (∃ reading, readData data = .ok reading) ↔ ¬ DataOverflows data := by
  by_cases htests : ∃ members items, data = .obj members ∧
      members.lookup (wide "tests") = some (.arr items)
  · obtain ⟨members, items, rfl, hlookup⟩ := htests
    have hoverflows : DataOverflows (.obj members) ↔ Overflows items := by
      constructor
      · rintro ⟨_, others, hdata, hsame, h⟩
        obtain rfl := WideJson.obj.inj hdata
        obtain rfl := WideJson.arr.inj (Option.some.inj (hlookup.symm.trans hsame))
        exact h
      · exact fun h => ⟨members, items, rfl, hlookup, h⟩
    rw [hoverflows, ← readTests_isOk_iff]
    simp only [readData, hlookup]
    constructor
    · rintro ⟨reading, h⟩
      obtain ⟨read, hread, _⟩ := bind_eq_ok.mp h
      exact ⟨read, hread⟩
    · rintro ⟨read, hread⟩
      cases read with
      | none => exact ⟨_, bind_eq_ok.mpr ⟨none, hread, rfl⟩⟩
      | some read => exact ⟨_, bind_eq_ok.mpr ⟨some read, hread, rfl⟩⟩
  -- without a list of tests no duration is looked at
  · apply iff_of_true
    · unfold readData
      split
      · split
        · exact ⟨_, rfl⟩
        next hlookup => exact absurd ⟨_, _, rfl, hlookup⟩ htests
        · exact ⟨_, rfl⟩
      · exact ⟨_, rfl⟩
    · rintro ⟨members, items, hdata, hlookup, _⟩
      exact htests ⟨members, items, hdata, hlookup⟩

/-- A report the parser raises on: one that nests too deeply or overflows. -/
def Unreadable (maxNesting : Nat) (reportBytes : Option (List UInt8)) : Prop :=
  ∃ bytes text, reportBytes = some bytes ∧ isBlank bytes = false ∧ decodeUtf8? bytes = some text ∧
    (WideJson.loadsPlain maxNesting text = .error .recursionError ∨
      ∃ data, WideJson.loadsPlain maxNesting text = .ok data ∧ DataOverflows data)

/-- Reading raises on reports that nest too deeply and on durations beyond the floats, and on
nothing else: what is no text or no JSON is a parser error. -/
theorem readReport_isOk_iff {maxNesting : Nat} {reportBytes : Option (List UInt8)} :
    (∃ reading, readReport maxNesting reportBytes = .ok reading) ↔
      ¬ Unreadable maxNesting reportBytes := by
  by_cases htext : ∃ bytes text, reportBytes = some bytes ∧ isBlank bytes = false ∧
      decodeUtf8? bytes = some text
  · obtain ⟨bytes, text, rfl, hblank, htext⟩ := htext
    have hunreadable : Unreadable maxNesting (some bytes) ↔
        WideJson.loadsPlain maxNesting text = .error .recursionError ∨
          ∃ data, WideJson.loadsPlain maxNesting text = .ok data ∧ DataOverflows data := by
      constructor
      · rintro ⟨_, other, hbytes, _, hsame, h⟩
        obtain rfl := Option.some.inj hbytes
        obtain rfl := Option.some.inj (htext.symm.trans hsame)
        exact h
      · exact fun h => ⟨bytes, text, rfl, hblank, htext, h⟩
    rw [hunreadable]
    simp only [readReport, hblank, Bool.false_eq_true, if_false, htext]
    cases hload : WideJson.loadsPlain maxNesting text with
    | error exc => cases exc <;> simp
    | ok data => simpa using readData_isOk_iff data
  · apply iff_of_true
    · unfold readReport
      split
      · exact ⟨_, rfl⟩
      next bytes =>
        split
        · exact ⟨_, rfl⟩
        next hblank =>
          split
          · exact ⟨_, rfl⟩
          next text hdecode =>
            exact absurd ⟨bytes, text, rfl, eq_false_of_ne_true hblank, hdecode⟩ htext
    · rintro ⟨bytes, text, hbytes, hblank, hdecode, _⟩
      exact htext ⟨bytes, text, hbytes, hblank, hdecode⟩

/-- The parser adds no exception of its own to those of reading the report. -/
theorem parse_isOk_iff {maxNesting : Nat} {reportBytes : Option (List UInt8)}
    {manifest : VerifierManifest} {capture : ExecutionCapture} :
    (∃ parsed, parse maxNesting reportBytes manifest capture = .ok parsed) ↔
      ¬ Unreadable maxNesting reportBytes := by
  rw [← readReport_isOk_iff]
  constructor
  · rintro ⟨parsed, h⟩
    obtain ⟨reading, hreading, _⟩ := bind_eq_ok.mp h
    exact ⟨reading, hreading⟩
  · rintro ⟨reading, hreading⟩
    rcases reading with _ | _ | ⟨results, _ | _⟩ <;>
      exact ⟨_, bind_eq_ok.mpr ⟨_, hreading, rfl⟩⟩

end Raising

/-! ## What a parsed report says -/

section Parsed

variable {maxNesting : Nat} {reportBytes : Option (List UInt8)}

theorem readTests_length {items : List WideJson} {results : List TestResult} {parserError : Bool}
    (h : readTests items = .ok (some (results, parserError))) : results.length = items.length := by
  induction items generalizing results parserError with
  | nil =>
      obtain ⟨rfl, _⟩ := Prod.mk.inj (Option.some.inj (Except.ok.inj h))
      rfl
  | cons item rest ih =>
      unfold readTests at h
      split at h
      next heq => cases heq
      next members heq =>
        split at h
        · cases h
        · obtain ⟨duration, _, h⟩ := bind_eq_ok.mp h
          obtain ⟨read, hread, h⟩ := bind_eq_ok.mp h
          cases read with
          | none => cases h
          | some read =>
              obtain ⟨rfl, _⟩ := Prod.mk.inj (Option.some.inj (Except.ok.inj h))
              obtain ⟨_, rfl⟩ := List.cons.inj heq
              exact congrArg (· + 1) (ih hread)
      · cases h

/-- A report has no more results than bytes. Each result comes from an item of the list of
tests, and the text spells every item out. -/
theorem readReport_length {results : List TestResult} {parserError : Bool}
    (h : readReport maxNesting reportBytes = .ok (.tests results parserError)) :
    ∃ bytes, reportBytes = some bytes ∧ results.length ≤ bytes.length + 1 := by
  unfold readReport at h
  split at h
  · cases h
  next bytes =>
    refine ⟨bytes, rfl, ?_⟩
    split at h
    · cases h
    · split at h
      · cases h
      next text hdecode =>
        split at h
        · cases h
        · cases h
        next data hload =>
          unfold readData at h
          split at h
          next members =>
            split at h
            · cases h
              exact Nat.zero_le _
            next items hlookup =>
              obtain ⟨read, hread, h⟩ := bind_eq_ok.mp h
              rcases read with _ | ⟨read, error⟩
              · cases h
              · cases h
                have hitems := WideJson.loadsPlain_items hload hlookup
                have htext := decodeUtf8?_length hdecode
                rw [readTests_length hread]
                omega
            · cases h
          · cases h

def Reading.WellFormed : Reading → Prop
  | .tests _ parserError => parserError = false
  | _ => False

theorem decision_consistent (failures : Bool) (exitCode : Option Int) (report : TestReport) :
    (decision failures exitCode report).Consistent := by
  unfold decision
  split
  · exact ParsedOutcome.invalid_consistent (Or.inl rfl)
  · split
    · exact ⟨fun _ => rfl, by simp⟩
    · exact ⟨fun _ => rfl, by simp⟩

theorem judge_consistent (manifest : VerifierManifest) (exitCode : Option Int)
    (results : List TestResult) : (judge manifest exitCode results).Consistent := by
  unfold judge
  dsimp only
  split
  · exact ParsedOutcome.invalid_consistent (Or.inl rfl)
  · split
    · exact ParsedOutcome.invalid_consistent (Or.inl rfl)
    · split
      · exact ParsedOutcome.invalid_consistent (Or.inl rfl)
      · exact decision_consistent _ _ _

/-- What holds of every outcome that is parsed from a report. -/
structure Parsed (maxNesting : Nat) (reportBytes : Option (List UInt8)) (parsed : ParsedOutcome) :
    Prop where
  consistent : parsed.Consistent
  counted : ∀ report ∈ parsed.report, ∃ bytes, reportBytes = some bytes ∧
    report.results.length ≤ bytes.length + 1
  decided : parsed.evaluationValidity = .valid →
    ∃ reading, readReport maxNesting reportBytes = .ok reading ∧ reading.WellFormed

/-- An outcome without a decision says nothing about the report. -/
theorem Parsed.of_invalid {outcome : Outcome} {errorCode : String} {evidenceDigests : List String}
    (hno : outcome = .invalidEvaluation ∨ outcome = .error) :
    Parsed maxNesting reportBytes (.invalid outcome errorCode none evidenceDigests) where
  consistent := ParsedOutcome.invalid_consistent hno
  counted := by
    intro report hreport
    cases hreport
  decided := by
    intro hvalid
    cases hvalid

theorem judge_report (manifest : VerifierManifest) (exitCode : Option Int)
    (results : List TestResult) :
    (judge manifest exitCode results).report = some (reportOf results) := by
  unfold judge decision
  dsimp only
  repeat' split
  all_goals rfl

/-- What is parsed is consistent, and it is a decision only if the report was read as a list of
well formed tests. -/
theorem parse_ok {manifest : VerifierManifest} {capture : ExecutionCapture} {parsed : ParsedOutcome}
    (h : parse maxNesting reportBytes manifest capture = .ok parsed) :
    Parsed maxNesting reportBytes parsed := by
  obtain ⟨reading, hreading, h⟩ := bind_eq_ok.mp h
  cases reading with
  | empty =>
      obtain rfl := Except.ok.inj h
      exact .of_invalid (Or.inl rfl)
  | malformed =>
      obtain rfl := Except.ok.inj h
      exact .of_invalid (Or.inl rfl)
  | tests results parserError =>
      have hcounted : ∀ report ∈ some (reportOf results), ∃ bytes, reportBytes = some bytes ∧
          report.results.length ≤ bytes.length + 1 := by
        intro report hreport
        obtain rfl := Option.some.inj hreport
        exact readReport_length hreading
      cases parserError with
      | true =>
          obtain rfl := Except.ok.inj h
          refine ⟨ParsedOutcome.invalid_consistent (Or.inl rfl), hcounted, ?_⟩
          intro hvalid
          cases hvalid
      | false =>
          obtain rfl := Except.ok.inj h
          refine ⟨judge_consistent _ _ _, ?_, fun _ => ⟨_, hreading, rfl⟩⟩
          rw [judge_report]
          exact hcounted

end Parsed

end VerifierCI
