import VerifierCI.Python.Datetime
import VerifierCI.Python.WideJson

/-! # Attempt, job and run records

The immutable records that cross the queue's boundary. A worker holds a `Job`
as its lease handle and submits an `EvaluationAttempt` as its evidence.
-/

namespace VerifierCI

open Python

inductive Outcome where
  | accept
  | reject
  | invalidEvaluation
  | error
deriving DecidableEq, Repr

inductive EvaluationValidity where
  | pending
  | valid
  | invalid
deriving DecidableEq, Repr

/-- Authority status of a physical attempt. -/
inductive Disposition where
  | active
  | authoritative
  | stale
  | abandoned
deriving DecidableEq, Repr

inductive JobState where
  | pending
  | claimed
  | running
  | done
  | failed
  | abandoned
deriving DecidableEq, Repr

inductive RunState where
  | planned
  | running
  | complete
  | cancelled
  | failed
deriving DecidableEq, Repr

/-- Disclosure boundary of an artifact. -/
inductive AccessPolicy where
  | «public»
  | restricted
  | sealed
deriving DecidableEq, Repr

/-- A lowercase SHA-256 hex digest. -/
structure Digest where
  text : String
  length_eq : text.length = 64
  hex : (text.toList.all fun c => "0123456789abcdef".toList.contains c) = true
deriving DecidableEq, Repr

theorem hex_ofList {chars : List Char}
    (h : (chars.all fun c => "0123456789abcdef".toList.contains c) = true) :
    ((String.ofList chars).toList.all fun c => "0123456789abcdef".toList.contains c) = true := by
  rw [String.toList_ofList]
  exact h

/-- The digest that spells a number below `2 ^ 256`. -/
def hexdigest (n : Nat) : Digest where
  text := String.ofList ((List.range 64).map fun i => Nat.digitChar (n >>> (4 * (63 - i)) % 16))
  length_eq := by simp
  hex := by
    have hdigit : ∀ d < 16, "0123456789abcdef".toList.contains (Nat.digitChar d) = true := by decide
    simp only [String.toList_ofList, List.all_map, List.all_eq_true, Function.comp_apply]
    intro i _
    exact hdigit _ (Nat.mod_lt _ (by decide))

/-- Metadata for an immutable stored byte payload. -/
structure Artifact where
  digest : Digest
  kind : String
  sizeBytes : Int
  storageUri : String
  mediaType : String
  accessPolicy : AccessPolicy
  /-- Earliest permitted deletion time, null for retained evidence. -/
  retentionUntil : Option Datetime
  available : Bool
  createdAt : Datetime
deriving DecidableEq, Repr

/-- Measured and allocated execution resources. -/
structure ResourceUsage where
  duration : Option PyFloat
  allocatedCpu : Option PyFloat
  cpuSeconds : Option PyFloat
  peakMemory : Option Int
  modelUsage : Option (List (String × Int))
  estimatedCost : Option String
  pricingVersion : Option String
  bytesWritten : Option Int
deriving DecidableEq, Repr

/-- The dictionary the queue stores for the resources of an attempt. An empty
`model_usage` is written as `None`. -/
def ResourceUsage.toJson (usage : ResourceUsage) : Json :=
  .obj [
    ("duration", Json.ofOption .float usage.duration),
    ("allocated_cpu", Json.ofOption .float usage.allocatedCpu),
    ("cpu_seconds", Json.ofOption .float usage.cpuSeconds),
    ("peak_memory", Json.ofOption .int usage.peakMemory),
    ("model_usage",
      match usage.modelUsage with
      | none | some [] => .null
      | some counts => .obj (counts.map fun count => (count.1, .int count.2))),
    ("estimated_cost", Json.ofOption .str usage.estimatedCost),
    ("pricing_version", Json.ofOption .str usage.pricingVersion),
    ("bytes_written", Json.ofOption .int usage.bytesWritten)]

/-- A scheduled repetition: a row of the `jobs` table, and the handle a worker
holds on it. -/
structure Job where
  jobId : String
  runId : String
  taskKey : String
  caseId : String
  verifierKey : String
  repetition : Int
  state : JobState
  fence : Int
  attemptId : Option String
  leaseToken : Option String
  workerId : Option String
  leaseExpiresMs : Option Int
  attemptsStarted : Int
  selectedAttemptId : Option String
  terminalReason : Option String
deriving DecidableEq, Repr

/-- A physical execution of one planned repetition. -/
structure EvaluationAttempt where
  attemptId : String
  jobId : String
  fence : Int
  outcome : Option Outcome
  evaluationValidity : EvaluationValidity
  errorCode : Option String
  disposition : Disposition
  startedAt : Datetime
  finishedAt : Option Datetime
  exitCode : Option Int
  stdoutHash : Option String
  stderrHash : Option String
  reportDigest : Option String
  testCollection : List WideString
  testsPassed : Option Int
  testsFailed : Option Int
  resources : ResourceUsage
  artifactDigests : List String
  captureTruncated : Bool
deriving DecidableEq, Repr

end VerifierCI
