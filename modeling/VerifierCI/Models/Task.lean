import VerifierCI.Models.Canonical
import VerifierCI.Models.Result

/-! # Task, requirement, contract, snapshot and environment records

Content hashes leave out the hash itself and the time of registration, and sort
what is a set.
-/

namespace VerifierCI

open Python

inductive SourceKind where
  | explicit
  | repository
  | clarification
deriving DecidableEq, Repr

/-- Normative behavioural requirement within a task contract. -/
structure Requirement where
  requirementHash : String
  requirementId : String
  text : String
  sourceKind : SourceKind
  evidenceDigests : List String
  sourceLocator : String
  allowedVariation : String
deriving DecidableEq, Repr

/-- Normative contract defining acceptable behaviours for a task. -/
structure Contract where
  contractHash : String
  taskId : String
  version : String
  requirementHashes : List String
  allowedVariation : String
  unresolvedQuestions : List String
  evidenceDigests : List String
  createdAt : Datetime
deriving DecidableEq, Repr

/-- Base source code artifact and commit identity. -/
structure RepositorySnapshot where
  snapshotDigest : String
  repositoryId : String
  commitOid : String
  archiveUri : String
  treeDigest : String
  submoduleDigests : List String
  lockDigests : List String
  licence : String
  createdAt : Datetime
deriving DecidableEq, Repr

inductive Eligibility where
  | eligible
  | excluded
  | pending
deriving DecidableEq, Repr

/-- Frozen task specification and execution references. -/
structure Task where
  taskKey : String
  taskId : String
  version : String
  statement : String
  adapter : String
  contractHash : String
  snapshotDigest : String
  environmentId : String
  licence : String
  provenance : String
  eligibility : Eligibility
  notes : String
  createdAt : Datetime
deriving DecidableEq, Repr

def SourceKind.text : SourceKind → String
  | .explicit => "explicit"
  | .repository => "repository"
  | .clarification => "clarification"

/-- `sorted(values)`. -/
def sortedStrings (values : List String) : List String :=
  values.insertionSort (· ≤ ·)

variable (sha256 : List UInt8 → Digest)

/-- SHA-256 of the canonical requirement content. -/
def requirementHash (requirement : Requirement) : String :=
  (sha256 (canonicalBytes (.obj [
    ("requirement_id", .str requirement.requirementId),
    ("text", .str requirement.text),
    ("source_kind", .str requirement.sourceKind.text),
    ("evidence_digests", Json.ofStrings (sortedStrings requirement.evidenceDigests)),
    ("source_locator", .str requirement.sourceLocator),
    ("allowed_variation", .str requirement.allowedVariation)]))).text

def contractHash (contract : Contract) : String :=
  (sha256 (canonicalBytes (.obj [
    ("task_id", .str contract.taskId),
    ("version", .str contract.version),
    ("requirement_hashes", Json.ofStrings (sortedStrings contract.requirementHashes)),
    ("allowed_variation", .str contract.allowedVariation),
    ("unresolved_questions", Json.ofStrings (sortedStrings contract.unresolvedQuestions)),
    ("evidence_digests", Json.ofStrings (sortedStrings contract.evidenceDigests))]))).text

end VerifierCI
