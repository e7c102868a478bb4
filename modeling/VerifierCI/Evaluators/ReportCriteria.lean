import VerifierCI.Evaluators.PytestReport
import VerifierCI.Python.Sorted

/-! # What a report has to look like

The entries of a report, and what the parser asks of each of them. A report is
read to the end exactly when every entry has a node id and a usable duration;
that an outcome is missing is not noticed, it counts as a failure.
-/

namespace VerifierCI

open Python

/-! ## Entries -/

/-- The value is absent, null or converted. The two conversions are arguments. -/
def ConvertibleBy (ofInt? : Int → Option PyFloat) (ofText? : WideString → Option PyFloat) :
    Option WideJson → Prop
  | none | some .null | some (.bool _) | some (.float _) => True
  | some (.int value) => (ofInt? value).isSome = true
  | some (.str text) => (ofText? text).isSome = true
  | some (.arr _) | some (.obj _) => False

/-- `float()` converts the value, or there is none. -/
def Convertible : Option WideJson → Prop :=
  ConvertibleBy PyFloat.ofInt? floatOfText?

/-- An object with a node id and a duration that is absent, null or convertible. -/
def WellFormedEntry : WideJson → Prop
  | .obj members => (nodeid? members).isSome = true ∧ Convertible (members.lookup (wide "duration"))
  | _ => False

def HasOutcome : WideJson → Prop
  | .obj members => ∃ outcome, members.lookup (wide "outcome") = some (.str outcome)
  | _ => False

/-- The float a value is converted to, if any. -/
def convertedBy? (ofInt? : Int → Option PyFloat) (ofText? : WideString → Option PyFloat) :
    Option WideJson → Option PyFloat
  | some (.bool value) => ofInt? (if value then 1 else 0)
  | some (.int value) => ofInt? value
  | some (.float duration) => some duration
  | some (.str text) => ofText? text
  | _ => none

/-- `float(duration)`, or `None`. -/
def durationValue? : Option WideJson → Option PyFloat :=
  convertedBy? PyFloat.ofInt? floatOfText?

def resultOf? : WideJson → Option TestResult
  | .obj members => (nodeid? members).map fun nodeid =>
      { testId := nodeid
        status := statusOf members
        duration := durationValue? (members.lookup (wide "duration"))
        failureDigest := none }
  | _ => none

def resultsOf (items : List WideJson) : List TestResult :=
  items.filterMap resultOf?

section Entries

variable {items : List WideJson} {results : List TestResult}
  {members : List (WideString × WideJson)}

/-- A conversion without a parser error gives the value. -/
theorem convertDuration_eq_iff {ofInt? : Int → Option PyFloat}
    {ofText? : WideString → Option PyFloat} {found : Option WideJson} {duration : Option PyFloat} :
    convertDuration ofInt? ofText? found = .ok (duration, false) ↔
      ConvertibleBy ofInt? ofText? found ∧ duration = convertedBy? ofInt? ofText? found := by
  cases found with
  | none => simp [ConvertibleBy, convertDuration, convertedBy?, eq_comm]
  | some found =>
      cases found with
      | int value =>
          cases hfloat : ofInt? value <;>
            simp [ConvertibleBy, convertDuration, convertedBy?, hfloat, eq_comm]
      | str text =>
          cases hfloat : ofText? text <;>
            simp [ConvertibleBy, convertDuration, convertedBy?, hfloat, eq_comm]
      | _ => simp [ConvertibleBy, convertDuration, convertedBy?, eq_comm]

theorem durationOf_eq_iff {duration : Option PyFloat} :
    durationOf members = .ok (duration, false) ↔
      Convertible (members.lookup (wide "duration")) ∧
        duration = durationValue? (members.lookup (wide "duration")) :=
  convertDuration_eq_iff

/-- The items are read without a parser error exactly when all are well formed. Of each item the
id is read first, then the duration, and the results are listed in the order of the items. -/
theorem readTests_eq_iff : readTests items = .ok (some (results, false)) ↔
    (∀ item ∈ items, WellFormedEntry item) ∧ results = resultsOf items := by
  induction items generalizing results with
  | nil => simp [readTests, resultsOf, eq_comm]
  | cons item rest ih =>
      rw [List.forall_mem_cons]
      cases item with
      | obj members =>
          cases hnodeid : nodeid? members with
          | none => simp [readTests, WellFormedEntry, hnodeid]
          | some nodeid =>
              have hcons : resultsOf (.obj members :: rest) =
                  { testId := nodeid
                    status := statusOf members
                    duration := durationValue? (members.lookup (wide "duration"))
                    failureDigest := none } :: resultsOf rest := by
                simp [resultsOf, resultOf?, hnodeid]
              simp only [readTests, hnodeid, hcons, WellFormedEntry, Option.isSome_some, true_and]
              constructor
              · intro h
                obtain ⟨⟨duration, parserError⟩, hduration, h⟩ := bind_eq_ok.mp h
                obtain ⟨read, hread, h⟩ := bind_eq_ok.mp h
                cases read with
                | none => cases h
                | some read =>
                    obtain ⟨others, restError⟩ := read
                    obtain ⟨rfl, herror⟩ := Prod.mk.inj (Option.some.inj (Except.ok.inj h))
                    obtain ⟨rfl, rfl⟩ := Bool.or_eq_false_iff.mp herror
                    obtain ⟨hconvertible, rfl⟩ := durationOf_eq_iff.mp hduration
                    obtain ⟨hrest, rfl⟩ := ih.mp hread
                    exact ⟨⟨hconvertible, hrest⟩, rfl⟩
              · rintro ⟨⟨hconvertible, hrest⟩, rfl⟩
                exact bind_eq_ok.mpr ⟨_, durationOf_eq_iff.mpr ⟨hconvertible, rfl⟩,
                  bind_eq_ok.mpr ⟨_, ih.mpr ⟨hrest, rfl⟩, rfl⟩⟩
      | _ => simp [readTests, WellFormedEntry]

end Entries

/-! ## Reports -/

section Reports

variable (maxNesting : Nat) (reportBytes : Option (List UInt8))

/-- The report is the UTF-8 text of a JSON object with these members. -/
def ReportObject (members : List (WideString × WideJson)) : Prop :=
  ∃ bytes text, reportBytes = some bytes ∧ decodeUtf8? bytes = some text ∧
    WideJson.loadsPlain maxNesting text = .ok (.obj members)

def ReportTests (items : List WideJson) : Prop :=
  ∃ members, ReportObject maxNesting reportBytes members ∧
    members.lookup (wide "tests") = some (.arr items)

variable {maxNesting reportBytes}

/-- An object starts with a brace. -/
theorem loadValue_obj {size depth : Nat} {text rest : List Char}
    {members : List (WideString × WideJson)}
    (h : WideJson.loadValue size depth text = .ok (.obj members, rest)) :
    ∃ tail, text = '{' :: tail := by
  unfold WideJson.loadValue at h
  split at h
  · cases h
  · split at h
    · cases h
    · exact (WideJson.loadScalar_isScalar h).elim
  · split at h
    · cases h
    · obtain ⟨items, _, h⟩ := Json.of_bind_eq_ok h
      cases h
  · exact ⟨_, rfl⟩
  · exact (WideJson.loadScalar_isScalar h).elim

/-- The text of an object is more than white space. -/
theorem ReportObject.not_blank {members : List (WideString × WideJson)} {bytes : List UInt8}
    {text : List Char} (hdecode : decodeUtf8? bytes = some text)
    (hload : WideJson.loadsPlain maxNesting text = .ok (.obj members)) : isBlank bytes = false := by
  obtain ⟨⟨value, rest⟩, hvalue, h⟩ := Json.of_bind_eq_ok hload
  dsimp only at h
  split at h
  next =>
    obtain rfl := Except.ok.inj h
    obtain ⟨tail, htail⟩ := loadValue_obj hvalue
    have hbrace : '{' ∈ text := by
      have hmem : '{' ∈ Json.skipSpace text := htail ▸ List.mem_cons_self
      exact (List.dropWhile_sublist _).subset hmem
    have hbytes : text.flatMap String.utf8EncodeChar = bytes := by
      unfold decodeUtf8? at hdecode
      split at hdecode
      next hencode => exact Option.some.inj hdecode ▸ hencode
      next => cases hdecode
    have hbyte : (0x7b : UInt8) ∈ bytes := by
      rw [← hbytes, List.mem_flatMap]
      exact ⟨'{', hbrace, by decide⟩
    rw [isBlank, List.all_eq_false]
    exact ⟨0x7b, hbyte, by decide⟩
  next => cases h

theorem readReport_of_object {members : List (WideString × WideJson)}
    (h : ReportObject maxNesting reportBytes members) :
    readReport maxNesting reportBytes = readData (.obj members) := by
  obtain ⟨bytes, text, rfl, hdecode, hload⟩ := h
  simp only [readReport, ReportObject.not_blank hdecode hload, Bool.false_eq_true, if_false,
    hdecode, hload]

/-- A reading that is neither empty nor malformed comes from an object. -/
theorem ReportObject.of_tests {results : List TestResult} {parserError : Bool}
    (h : readReport maxNesting reportBytes = .ok (.tests results parserError)) :
    ∃ members, ReportObject maxNesting reportBytes members := by
  unfold readReport at h
  split at h
  · cases h
  next bytes =>
    split at h
    · cases h
    · split at h
      · cases h
      next text hdecode =>
        split at h
        · cases h
        · cases h
        next data hload =>
          cases data with
          | obj members => exact ⟨members, bytes, text, rfl, hdecode, hload⟩
          | _ => cases h

/-- The report decodes to one object at most. -/
theorem ReportObject.unique {members others : List (WideString × WideJson)}
    (h : ReportObject maxNesting reportBytes members)
    (hothers : ReportObject maxNesting reportBytes others) : members = others := by
  obtain ⟨bytes, text, rfl, hdecode, hload⟩ := h
  obtain ⟨_, _, hbytes, hdecode', hload'⟩ := hothers
  obtain rfl := Option.some.inj hbytes
  obtain rfl := Option.some.inj (hdecode.symm.trans hdecode')
  exact WideJson.obj.inj (Except.ok.inj (hload.symm.trans hload'))

/-- A report lists one sequence of tests, whatever else it says. -/
theorem ReportTests.unique {items others : List WideJson}
    (h : ReportTests maxNesting reportBytes items)
    (hothers : ReportTests maxNesting reportBytes others) : items = others := by
  obtain ⟨members, hobject, hitems⟩ := h
  obtain ⟨members', hobject', hitems'⟩ := hothers
  obtain rfl := hobject.unique hobject'
  exact WideJson.arr.inj (Option.some.inj (hitems.symm.trans hitems'))

/-- A report is read without a parser error exactly when it is an object without
tests, or with a list of well formed ones. -/
theorem readReport_wellFormed_iff {results : List TestResult} :
    readReport maxNesting reportBytes = .ok (.tests results false) ↔
      (∃ members, ReportObject maxNesting reportBytes members ∧
        members.lookup (wide "tests") = none ∧
        results = []) ∨
      ∃ items, ReportTests maxNesting reportBytes items ∧
        (∀ item ∈ items, WellFormedEntry item) ∧ results = resultsOf items := by
  constructor
  · intro h
    obtain ⟨members, hobject⟩ := ReportObject.of_tests h
    rw [readReport_of_object hobject, readData] at h
    split at h
    next hnone =>
      cases h
      exact Or.inl ⟨members, hobject, hnone, rfl⟩
    next items hitems =>
      obtain ⟨read, hread, h⟩ := bind_eq_ok.mp h
      rcases read with _ | ⟨read, parserError⟩
      · cases h
      · cases h
        obtain ⟨hformed, rfl⟩ := readTests_eq_iff.mp hread
        exact Or.inr ⟨items, ⟨members, hobject, hitems⟩, hformed, rfl⟩
    next => cases h
  · rintro (⟨members, hobject, hnone, rfl⟩ | ⟨items, ⟨members, hobject, hitems⟩, hformed, rfl⟩)
    · rw [readReport_of_object hobject]
      simp only [readData, hnone]
    · rw [readReport_of_object hobject]
      simp only [readData, hitems]
      exact bind_eq_ok.mpr ⟨_, readTests_eq_iff.mpr ⟨hformed, rfl⟩, rfl⟩

end Reports

/-! ## Collections and verdicts -/

def HasNodeId (item : WideJson) (testId : WideString) : Prop :=
  ∃ members, item = .obj members ∧ nodeid? members = some testId

def HasStatus (item : WideJson) (status : TestStatus) : Prop :=
  ∃ members, item = .obj members ∧ statusOf members = status

def nodeids (items : List WideJson) : List WideString :=
  (resultsOf items).map TestResult.testId

/-- The collection is the expected one, each id as often as expected. -/
def CollectionExpected (manifest : VerifierManifest) (items : List WideJson) : Prop :=
  manifest.expectedCollection = [] ∨ (manifest.expectedCollection.map wide).Perm (nodeids items)

def SkipsPermitted (manifest : VerifierManifest) (items : List WideJson) : Prop :=
  ∀ item ∈ items, ∀ testId, HasNodeId item testId → HasStatus item .skipped →
    testId ∈ manifest.permittedSkips.map wide

def LastPassed (items : List WideJson) (testId : WideString) : Prop :=
  ∃ before item after, items = before ++ item :: after ∧ HasNodeId item testId ∧
    HasStatus item .passed ∧ ∀ other ∈ after, ¬ HasNodeId other testId

section Verdicts

variable {manifest : VerifierManifest} {items : List WideJson}

theorem perm_of_sorted_eq {first second : List WideString}
    (h : first.insertionSort (· ≤ ·) = second.insertionSort (· ≤ ·)) : first.Perm second :=
  (List.perm_insertionSort _ first).symm.trans (h ▸ List.perm_insertionSort _ second)

/-- The comparison as sets adds nothing to the one as sorted lists. -/
theorem collectionMismatch_eq_false_iff :
    collectionMismatch manifest (nodeids items) = false ↔ CollectionExpected manifest items := by
  have hempty : manifest.expectedCollection = [] ↔ manifest.expectedCollection.map wide = [] :=
    List.map_eq_nil_iff.symm
  rw [CollectionExpected, hempty, collectionMismatch]
  generalize manifest.expectedCollection.map wide = expected
  cases expected with
  | nil => simp
  | cons first rest =>
      simp only [List.isEmpty_cons, Bool.not_false, Bool.true_and, reduceCtorEq, false_or,
        Bool.or_eq_false_iff, Bool.not_eq_false', Bool.and_eq_true, List.all_eq_true,
        List.contains_iff_mem, decide_eq_false_iff_not, ne_eq, not_not]
      constructor
      · exact fun h => perm_of_sorted_eq h.2
      · intro hperm
        exact ⟨⟨fun testId hmem => hperm.mem_iff.mp hmem,
          fun testId hmem => hperm.mem_iff.mpr hmem⟩,
          sorted_eq_of_perm_self hperm⟩

/-- Results and entries with a node id correspond. -/
theorem mem_resultsOf {result : TestResult} : result ∈ resultsOf items ↔
    ∃ item ∈ items, resultOf? item = some result :=
  List.mem_filterMap

/-- The result of an entry carries its node id and its status, and nothing else of it
decides. -/
theorem resultOf?_eq_some {item : WideJson} {result : TestResult}
    (h : resultOf? item = some result) :
    HasNodeId item result.testId ∧ HasStatus item result.status := by
  cases item with
  | obj members =>
      obtain ⟨nodeid, hnodeid, rfl⟩ := Option.map_eq_some_iff.mp h
      exact ⟨⟨members, rfl, hnodeid⟩, members, rfl, rfl⟩
  | _ => cases h

theorem HasNodeId.result {item : WideJson} {testId : WideString} (h : HasNodeId item testId) :
    ∃ result, resultOf? item = some result ∧ result.testId = testId := by
  obtain ⟨members, rfl, hnodeid⟩ := h
  exact ⟨_, by rw [resultOf?, hnodeid, Option.map_some], rfl⟩

theorem WellFormedEntry.nodeId {item : WideJson} (h : WellFormedEntry item) :
    ∃ testId, HasNodeId item testId := by
  cases item with
  | obj members =>
      obtain ⟨testId, hnodeid⟩ := Option.isSome_iff_exists.mp h.1
      exact ⟨testId, members, rfl, hnodeid⟩
  | _ => exact h.elim

theorem HasStatus.unique {item : WideJson} {status other : TestStatus} (h : HasStatus item status)
    (hother : HasStatus item other) : status = other := by
  obtain ⟨members, rfl, rfl⟩ := h
  obtain ⟨_, hobj, rfl⟩ := hother
  cases hobj
  rfl

theorem HasNodeId.unique {item : WideJson} {testId other : WideString} (h : HasNodeId item testId)
    (hother : HasNodeId item other) : testId = other := by
  obtain ⟨members, rfl, hid⟩ := h
  obtain ⟨_, hobj, hid'⟩ := hother
  cases hobj
  exact Option.some.inj (hid.symm.trans hid')

/-- The check of the parser over the results is the one over the entries of the report. -/
theorem skips_eq_false_iff :
    ((resultsOf items).any fun result =>
      result.status = .skipped && !(manifest.permittedSkips.map wide).contains result.testId) =
        false ↔
        SkipsPermitted manifest items := by
  rw [List.any_eq_false]
  simp only [Bool.and_eq_true, decide_eq_true_eq, Bool.not_eq_true', not_and, Bool.not_eq_false,
    List.contains_iff_mem]
  constructor
  · intro h item hitem testId hid hskipped
    obtain ⟨result, hresult, rfl⟩ := hid.result
    exact h result (mem_resultsOf.mpr ⟨item, hitem, hresult⟩)
      ((resultOf?_eq_some hresult).2.unique hskipped)
  · intro h result hmem hstatus
    obtain ⟨item, hitem, hresult⟩ := mem_resultsOf.mp hmem
    obtain ⟨hid, hitemStatus⟩ := resultOf?_eq_some hresult
    exact h item hitem _ hid (hstatus ▸ hitemStatus)

/-- Of two results with one id the later counts. The results are searched from the end, so an
earlier entry with the id is not reached. -/
theorem statusOfId_passed_iff {testId : WideString} :
    statusOfId (resultsOf items) testId = some .passed ↔ LastPassed items testId := by
  unfold statusOfId
  constructor
  · intro h
    obtain ⟨result, hfound, hpassed⟩ := Option.map_eq_some_iff.mp h
    obtain ⟨hid, later, earlier, hsplit, hlater⟩ := List.find?_eq_some_iff_append.mp hfound
    -- The first hit in the reversed results is the last entry with the id.
    have hresults : resultsOf items = earlier.reverse ++ result :: later.reverse := by
      rw [← List.reverse_reverse (resultsOf items), hsplit]
      simp
    obtain ⟨before, rest, rfl, hbefore, hrest⟩ := List.filterMap_eq_append_iff.mp hresults
    obtain ⟨skipped, item, after, rfl, hskipped, hitem, hafter⟩ :=
      List.filterMap_eq_cons_iff.mp hrest
    obtain ⟨hnodeid, hstatus⟩ := resultOf?_eq_some hitem
    refine ⟨before ++ skipped, item, after, by simp, of_decide_eq_true hid ▸ hnodeid,
      hpassed ▸ hstatus, ?_⟩
    intro other hother hsame
    obtain ⟨result', hresult', hid'⟩ := hsame.result
    have hmem : result' ∈ later := by
      rw [← List.mem_reverse, ← hafter]
      exact List.mem_filterMap.mpr ⟨other, hother, hresult'⟩
    simpa [hid'] using hlater result' hmem
  · rintro ⟨before, item, after, rfl, hnodeid, hstatus, hafter⟩
    -- No entry behind this one has the id, so the search from the end stops here.
    obtain ⟨result, hresult, rfl⟩ := hnodeid.result
    have hpassed : result.status = .passed := (resultOf?_eq_some hresult).2.unique hstatus
    rw [Option.map_eq_some_iff]
    refine ⟨result, List.find?_eq_some_iff_append.mpr ⟨by simp, (resultsOf after).reverse,
      (resultsOf before).reverse, ?_, ?_⟩, hpassed⟩
    · simp [resultsOf, List.filterMap_append, hresult]
    · intro other hother
      obtain ⟨item', hitem', hresult'⟩ := mem_resultsOf.mp (List.mem_reverse.mp hother)
      have hne : other.testId ≠ result.testId := by
        intro heq
        exact hafter item' hitem' (heq ▸ (resultOf?_eq_some hresult').1)
      simpa using hne

/-- The scan for failures, over the results and over the required ids, in terms of the
entries. -/
theorem hasFailures_eq_false_iff : hasFailures manifest (resultsOf items) = false ↔
    (∀ item ∈ items, ∀ testId, HasNodeId item testId → ¬ HasStatus item .failed) ∧
      ∀ testId ∈ manifest.requiredPassIds, LastPassed items (wide testId) := by
  rw [hasFailures, Bool.or_eq_false_iff, List.any_eq_false, List.any_eq_false]
  simp only [decide_eq_true_eq, ne_eq, not_not, statusOfId_passed_iff]
  refine and_congr_left' ⟨?_, ?_⟩
  · intro h item hitem testId hid hfailed
    obtain ⟨result, hresult, _⟩ := hid.result
    exact h result (mem_resultsOf.mpr ⟨item, hitem, hresult⟩)
      ((resultOf?_eq_some hresult).2.unique hfailed)
  · intro h result hmem hstatus
    obtain ⟨item, hitem, hresult⟩ := mem_resultsOf.mp hmem
    obtain ⟨hid, hitemStatus⟩ := resultOf?_eq_some hresult
    exact h item hitem _ hid (hstatus ▸ hitemStatus)

/-- Every entry is well formed, there is one, and collection and skips are as
the manifest has them. -/
structure Judged (manifest : VerifierManifest) (items : List WideJson) : Prop where
  nonempty : items ≠ []
  wellFormed : ∀ item ∈ items, WellFormedEntry item
  collection : CollectionExpected manifest items
  skips : SkipsPermitted manifest items

theorem resultsOf_eq_nil_iff (hformed : ∀ item ∈ items, WellFormedEntry item) :
    resultsOf items = [] ↔ items = [] := by
  constructor
  · intro h
    cases items with
    | nil => rfl
    | cons item rest =>
        obtain ⟨testId, hid⟩ := (hformed item List.mem_cons_self).nodeId
        obtain ⟨result, hresult, _⟩ := hid.result
        have hmem : result ∈ resultsOf (item :: rest) :=
          mem_resultsOf.mpr ⟨item, List.mem_cons_self, hresult⟩
        rw [h] at hmem
        cases hmem
  · rintro rfl
    rfl

/-- A decision is made exactly on judged entries. -/
theorem judge_of_judged (hjudged : Judged manifest items) (exitCode : Option Int) :
    judge manifest exitCode (resultsOf items) =
      decision (hasFailures manifest (resultsOf items)) exitCode (reportOf (resultsOf items)) := by
  have hne : (resultsOf items).isEmpty = false := by
    rw [List.isEmpty_eq_false_iff]
    exact fun h => hjudged.nonempty ((resultsOf_eq_nil_iff hjudged.wellFormed).mp h)
  have hcollection :
      ¬ collectionMismatch manifest (reportOf (resultsOf items)).collectedIds = true :=
    ne_true_of_eq_false (collectionMismatch_eq_false_iff.mpr hjudged.collection)
  have hskips := ne_true_of_eq_false (skips_eq_false_iff.mpr hjudged.skips)
  unfold judge
  dsimp only
  rw [if_neg (ne_true_of_eq_false hne), if_neg hcollection, if_neg hskips]

/-- Each of the checks before the decision classifies the evaluation as invalid when it
fails. -/
theorem judge_of_not_judged (hformed : ∀ item ∈ items, WellFormedEntry item)
    (hnot : ¬ Judged manifest items) (exitCode : Option Int) :
    (judge manifest exitCode (resultsOf items)).outcome = .invalidEvaluation := by
  unfold judge
  dsimp only
  split
  · rfl
  next hne =>
    split
    · rfl
    next hcollection =>
      split
      · rfl
      next hskips =>
        refine absurd ⟨?_, hformed, ?_, ?_⟩ hnot
        · rintro rfl
          exact hne rfl
        · exact collectionMismatch_eq_false_iff.mp (eq_false_of_ne_true hcollection)
        · exact skips_eq_false_iff.mp (eq_false_of_ne_true hskips)

end Verdicts

/-! ## Parsed outcomes -/

section Outcomes

variable {maxNesting : Nat} {reportBytes : Option (List UInt8)} {manifest : VerifierManifest}
  {capture : ExecutionCapture} {parsed : ParsedOutcome}

/-- The report lists entries a decision is made on. -/
def DecidesOn (maxNesting : Nat) (reportBytes : Option (List UInt8)) (manifest : VerifierManifest)
    (items : List WideJson) : Prop :=
  ReportTests maxNesting reportBytes items ∧ Judged manifest items

/-- Unless a report is decided on, its outcome is not valid. A decision takes tests that are
read without a parser error; what the decision is depends on the statuses and the exit code. -/
theorem parse_cases (h : parse maxNesting reportBytes manifest capture = .ok parsed) :
    (∃ items, DecidesOn maxNesting reportBytes manifest items ∧
      parsed = decision (hasFailures manifest (resultsOf items)) capture.exitCode
        (reportOf (resultsOf items))) ∨
    ((∀ items, ¬ DecidesOn maxNesting reportBytes manifest items) ∧
      parsed.outcome = .invalidEvaluation) := by
  obtain ⟨reading, hreading, h⟩ := bind_eq_ok.mp h
  -- Only one reading leads to a decision: tests without a parser error.
  have hdecides : ∀ items, DecidesOn maxNesting reportBytes manifest items →
      reading = .tests (resultsOf items) false := by
    rintro items ⟨htests, hjudged⟩
    have hread := readReport_wellFormed_iff.mpr (Or.inr ⟨items, htests, hjudged.wellFormed, rfl⟩)
    exact Except.ok.inj (hreading.symm.trans hread)
  rcases reading with _ | _ | ⟨results, _ | _⟩
  · obtain rfl := Except.ok.inj h
    exact Or.inr ⟨fun items hitems => (by cases hdecides items hitems), rfl⟩
  · obtain rfl := Except.ok.inj h
    exact Or.inr ⟨fun items hitems => (by cases hdecides items hitems), rfl⟩
  · obtain rfl := Except.ok.inj h
    rcases readReport_wellFormed_iff.mp hreading with ⟨members, hobject, hnone, rfl⟩ |
      ⟨items, htests, hformed, rfl⟩
    · refine Or.inr ⟨?_, rfl⟩
      rintro items ⟨⟨others, hothers, hitems⟩, _⟩
      obtain rfl := hobject.unique hothers
      rw [hnone] at hitems
      cases hitems
    -- the report lists well formed entries; collection and skips decide
    · by_cases hjudged : Judged manifest items
      · exact Or.inl ⟨items, ⟨htests, hjudged⟩, judge_of_judged hjudged capture.exitCode⟩
      · refine Or.inr ⟨?_, judge_of_not_judged hformed hjudged capture.exitCode⟩
        rintro others ⟨hothers, hjudged'⟩
        obtain rfl := htests.unique hothers
        exact hjudged hjudged'
  · obtain rfl := Except.ok.inj h
    exact Or.inr ⟨fun items hitems => (by cases hdecides items hitems), rfl⟩

end Outcomes

end VerifierCI
