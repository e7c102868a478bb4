import Mathlib.Logic.Function.Basic
import VerifierCI.Errors

/-! # The directories of an attempt

Supervisor and worker write and read a few paths below the directory of an
attempt. The processes of the attempt are not confined: they may remove what is
there, put something else in its place, or make one path a link to another.
What stands under a path is given by what a write and a lookup do with it.
-/

namespace VerifierCI

/-- What a lookup finds. -/
inductive Found where
  /-- No regular file. -/
  | missing
  | file (content : List UInt8)
  /-- `is_file()` or `open()` raises: the name is too long, or access is denied. -/
  | refused
deriving DecidableEq, Repr

/-- The bytes of a file, if there is one; `refused` raises. -/
def Found.content? : Found → Except Exc (Option (List UInt8))
  | .missing => .ok none
  | .file content => .ok (some content)
  | .refused => .error .osError

/-- The bytes a lookup that does not raise gives. -/
def Found.bytes? : Found → Option (List UInt8)
  | .file content => some content
  | _ => none

theorem Found.content?_eq_ok_iff {found : Found} {content : Option (List UInt8)} :
    found.content? = .ok content ↔ found ≠ .refused ∧ content = found.bytes? := by
  cases found <;> simp [Found.content?, Found.bytes?, eq_comm]

/-- What stands at the end of a path's links. -/
inductive Entry where
  /-- Nothing. A write creates a file. -/
  | missing
  | file (content : List UInt8)
  /-- No write succeeds, as on a directory or a file without permission. -/
  | refusing (found : Found)
  /-- A write succeeds and nothing of it is shown, as by a device. A lookup may be refused. -/
  | swallowing (refuses : Bool)
deriving DecidableEq, Repr

namespace Entry

def found : Entry → Found
  | .missing => .missing
  | .file content => .file content
  | .refusing found => found
  | .swallowing refuses => if refuses then .refused else .missing

/-- `write_bytes`; `none` is an `OSError`. -/
def write? (entry : Entry) (bytes : List UInt8) : Option Entry :=
  match entry with
  | .missing | .file _ => some (.file bytes)
  | .refusing _ => none
  | .swallowing refuses => some (.swallowing refuses)

def isRefusing : Entry → Bool
  | .refusing _ => true
  | _ => false

def isPlain : Entry → Bool
  | .missing | .file _ => true
  | _ => false

def written (entry : Entry) (bytes : List UInt8) : Entry :=
  (entry.write? bytes).getD entry

variable {entry : Entry} {bytes : List UInt8}

theorem write?_eq_some_iff {entry' : Entry} :
    entry.write? bytes = some entry' ↔ entry.isRefusing = false ∧ entry' = entry.written bytes := by
  cases entry <;> simp [write?, isRefusing, written, eq_comm]

theorem write?_eq_none_iff : entry.write? bytes = none ↔ entry.isRefusing = true := by
  cases entry <;> simp [write?, isRefusing]

@[simp] theorem isRefusing_written : (entry.written bytes).isRefusing = entry.isRefusing := by
  cases entry <;> rfl

/-- The last write is what counts. -/
@[simp] theorem written_written (other : List UInt8) :
    (entry.written other).written bytes = entry.written bytes := by
  cases entry <;> rfl

theorem written_bytes? (h : entry.isRefusing = false) :
    (entry.written bytes).found.bytes? = if entry.isPlain then some bytes else none := by
  cases entry with
  | missing => rfl
  | file content => rfl
  | refusing found => cases h
  | swallowing refuses => cases refuses <;> rfl

end Entry

/-- The two logs of the capture directory, `stdout.log` and `stderr.log`. -/
inductive Log where
  | stdout
  | stderr
deriving DecidableEq, Repr

/-- The paths that supervisor and worker use: the logs, and what is below `out`. -/
inductive AttemptPath where
  | log (log : Log)
  | out (path : String)
deriving DecidableEq, Repr

/-- What `is_dir()` says. -/
inductive DirStatus where
  | present
  | absent
  /-- It raises. -/
  | refused
deriving DecidableEq, Repr

/-- The directories of an attempt that outlive a process. -/
structure AttemptFiles where
  captureDir : DirStatus
  /-- Where the name of a log leads: to a file of its own, or by links to another one. -/
  place : Log → AttemptPath
  entry : AttemptPath → Entry

/-- What processes leave: only the paths they touch are mentioned. -/
structure Changes where
  captureDir : Option DirStatus
  place : Log → Option AttemptPath
  entry : AttemptPath → Option Entry

def Changes.untouched : Changes where
  captureDir := none
  place := fun _ => none
  entry := fun _ => none

namespace AttemptFiles

variable (files : AttemptFiles)

def change (changes : Changes) : AttemptFiles where
  captureDir := changes.captureDir.getD files.captureDir
  place log := (changes.place log).getD (files.place log)
  entry path := (changes.entry path).getD (files.entry path)

@[simp] theorem change_untouched : files.change .untouched = files := rfl

def log (log : Log) : Found :=
  match files.captureDir with
  | .present => (files.entry (files.place log)).found
  | .absent => .missing
  | .refused => .refused

/-- What a lookup below `out` finds. -/
def report (path : String) : Found :=
  (files.entry (.out path)).found

/-- `write_bytes` of a stream that is not empty. -/
def writeLog (log : Log) (bytes : List UInt8) : Except Exc AttemptFiles :=
  if bytes = [] then .ok files
  else
    match (files.entry (files.place log)).write? bytes with
    | none => .error .osError
    | some entry => .ok { files with entry := Function.update files.entry (files.place log) entry }

/-- Write capture streams to the capture directory, if there is one. -/
def keepLogs (stdout stderr : List UInt8) : Except Exc AttemptFiles :=
  match files.captureDir with
  | .refused => .error .osError
  | .absent => .ok files
  | .present => do
      let files ← files.writeLog .stdout stdout
      files.writeLog .stderr stderr

/-! ## What a write leaves -/

def withLog (log : Log) (bytes : List UInt8) : AttemptFiles :=
  if bytes = [] then files
  else { files with
    entry := Function.update files.entry (files.place log)
      ((files.entry (files.place log)).written bytes) }

def withLogs (stdout stderr : List UInt8) : AttemptFiles :=
  if files.captureDir = .present then (files.withLog .stdout stdout).withLog .stderr stderr
  else files

/-- Nothing stands in the way of the streams that are written. -/
structure TakesLogs (stdout stderr : List UInt8) : Prop where
  captureDir : files.captureDir ≠ .refused
  stdout : files.captureDir = .present → stdout ≠ [] →
    (files.entry (files.place .stdout)).isRefusing = false
  stderr : files.captureDir = .present → stderr ≠ [] →
    (files.entry (files.place .stderr)).isRefusing = false

variable {files} {log : Log} {bytes stdout stderr : List UInt8} {files' : AttemptFiles}

@[simp] theorem withLog_captureDir : (files.withLog log bytes).captureDir = files.captureDir := by
  unfold withLog
  split <;> rfl

@[simp] theorem withLog_place : (files.withLog log bytes).place = files.place := by
  unfold withLog
  split <;> rfl

/-- A stream that is written shows at the place its log leads to, and nowhere else. -/
theorem withLog_entry (path : AttemptPath) : (files.withLog log bytes).entry path =
    if bytes ≠ [] ∧ files.place log = path then (files.entry path).written bytes
    else files.entry path := by
  unfold withLog
  by_cases hempty : bytes = []
  · simp [hempty]
  · by_cases hpath : files.place log = path
    · simp [hempty, hpath]
    · simp [hempty, hpath, Function.update_of_ne (Ne.symm hpath)]

@[simp] theorem withLogs_captureDir :
    (files.withLogs stdout stderr).captureDir = files.captureDir := by
  unfold withLogs
  split <;> simp

@[simp] theorem withLogs_place : (files.withLogs stdout stderr).place = files.place := by
  unfold withLogs
  split <;> simp

@[simp] theorem withLogs_nil : files.withLogs [] [] = files := by
  unfold withLogs
  split <;> rfl

/-- Where both logs lead to one file, the later write is what counts. -/
theorem withLogs_entry (hpresent : files.captureDir = .present) (path : AttemptPath) :
    (files.withLogs stdout stderr).entry path =
      if stderr ≠ [] ∧ files.place .stderr = path then (files.entry path).written stderr
      else if stdout ≠ [] ∧ files.place .stdout = path then (files.entry path).written stdout
      else files.entry path := by
  rw [withLogs, if_pos hpresent, withLog_entry, withLog_place, withLog_entry]
  split_ifs <;> simp

/-- A write fails only where the place of the log refuses it; an empty stream is not written. -/
theorem writeLog_eq_ok_iff : files.writeLog log bytes = .ok files' ↔
    (bytes ≠ [] → (files.entry (files.place log)).isRefusing = false) ∧
      files' = files.withLog log bytes := by
  unfold writeLog withLog
  by_cases hempty : bytes = []
  · rw [if_pos hempty, if_pos hempty]
    constructor
    · intro h
      exact ⟨fun hne => absurd hempty hne, (Except.ok.inj h).symm⟩
    · rintro ⟨_, rfl⟩
      rfl
  · rw [if_neg hempty, if_neg hempty]
    split
    next hwrite =>
      rw [Entry.write?_eq_none_iff] at hwrite
      simp [hempty, hwrite]
    next entry hwrite =>
      obtain ⟨haccepts, rfl⟩ := Entry.write?_eq_some_iff.mp hwrite
      constructor
      · intro h
        exact ⟨fun _ => haccepts, (Except.ok.inj h).symm⟩
      · rintro ⟨_, rfl⟩
        rfl

/-- The logs are kept unless the operating system refuses one of the accesses. -/
theorem keepLogs_eq_ok_iff : files.keepLogs stdout stderr = .ok files' ↔
    files.TakesLogs stdout stderr ∧ files' = files.withLogs stdout stderr := by
  unfold keepLogs withLogs
  cases hdir : files.captureDir with
  | refused =>
      simp only [reduceCtorEq, false_iff, not_and]
      exact fun h => absurd hdir h.captureDir
  | absent =>
      have htakes : files.TakesLogs stdout stderr := by
        refine ⟨?_, ?_, ?_⟩ <;> simp [hdir]
      rw [if_neg DirStatus.noConfusion]
      constructor
      · intro h
        exact ⟨htakes, (Except.ok.inj h).symm⟩
      · rintro ⟨_, rfl⟩
        rfl
  | present =>
      dsimp only
      rw [bind_eq_ok, if_pos rfl]
      constructor
      · rintro ⟨middle, hstdout, hstderr⟩
        obtain ⟨hfirst, rfl⟩ := writeLog_eq_ok_iff.mp hstdout
        obtain ⟨hsecond, rfl⟩ := writeLog_eq_ok_iff.mp hstderr
        refine ⟨⟨by simp [hdir], fun _ => hfirst, fun _ hne => ?_⟩, rfl⟩
        have haccepts := hsecond hne
        rw [withLog_place, withLog_entry] at haccepts
        split_ifs at haccepts <;> simpa using haccepts
      · rintro ⟨htakes, rfl⟩
        refine ⟨_, writeLog_eq_ok_iff.mpr ⟨htakes.stdout hdir, rfl⟩, ?_⟩
        refine writeLog_eq_ok_iff.mpr ⟨fun hne => ?_, rfl⟩
        rw [withLog_place, withLog_entry]
        split_ifs <;> simpa using htakes.stderr hdir hne

end AttemptFiles

end VerifierCI
