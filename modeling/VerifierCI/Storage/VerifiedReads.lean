import VerifierCI.Models.Validation
import VerifierCI.Storage.Artifacts

/-! # Reading stored artifacts

A digest passes the store's own check before a path is made of it, and bytes pass
the digest before a caller sees them. The model layer checks digests by a regular
expression, whose `$` also stands before a final newline.
-/

namespace VerifierCI

open Python

/-- The digest a text spells, if it spells one. -/
def digestOf? (text : String) : Option Digest :=
  if h : text.length = 64 ∧ (text.toList.all fun c => "0123456789abcdef".toList.contains c) = true
  then some ⟨text, h.1, h.2⟩ else none

/-- `_validate_digest(digest)`. What passes is a digest. -/
def validateDigest (digest : String) : Except Exc Digest :=
  match digestOf? digest with
  | none => raiseWith .validationError ("Invalid SHA-256 hex digest: '" ++ digest ++ "'")
  | some digest => .ok digest

/-- What stands at the path of a digest. Somebody other than the store may have put it there. -/
inductive StoredFile where
  | missing
  | regular (content : List UInt8)
  | symlink
  /-- Neither a link nor a regular file. -/
  | irregular
deriving DecidableEq, Repr

section Open

variable (sha256 : List UInt8 → Digest)

def openStored (digest : Digest) (path : String) : StoredFile → Except Exc (List UInt8)
  | .symlink =>
      raiseWith .protectionError
        ("Symlink rejected for artifact '" ++ digest.text ++ "' at " ++ path)
  | .missing =>
      raiseWith .infrastructureError ("Artifact '" ++ digest.text ++ "' not found at " ++ path)
  | .irregular =>
      raiseWith .protectionError
        ("Artifact '" ++ digest.text ++ "' is not a regular file: " ++ path)
  | .regular content =>
      if sha256 content ≠ digest then
        .error (.verifierCI .infrastructureError
          ("Artifact digest mismatch: expected '" ++ digest.text ++ "', got '" ++
            (sha256 content).text ++ "'") .digestMismatch)
      else .ok content

namespace ArtifactStore

def stored (store : ArtifactStore) (digest : Digest) : StoredFile :=
  match store.files digest with
  | none => .missing
  | some content => .regular content

def openVerified (store : ArtifactStore) (digest : String) : Except Exc (List UInt8) := do
  let digest ← validateDigest digest
  openStored sha256 digest (store.targetPath digest) (store.stored digest)

def readBytes (store : ArtifactStore) (digest : String) : Except Exc (List UInt8) :=
  store.openVerified sha256 digest

def getPath (store : ArtifactStore) (digest : String) : Except Exc String := do
  let digest ← validateDigest digest
  .ok (store.targetPath digest)

end ArtifactStore

end Open

/-! ## Which texts are digests? -/

theorem digestOf?_eq_some_iff {text : String} {digest : Digest} :
    digestOf? text = some digest ↔ digest.text = text := by
  unfold digestOf?
  constructor
  · intro h
    split at h
    next => exact congrArg Digest.text (Option.some.inj h).symm
    next => cases h
  · rintro rfl
    rw [dif_pos ⟨digest.length_eq, digest.hex⟩]

theorem validateDigest_ok_iff {text : String} {digest : Digest} :
    validateDigest text = .ok digest ↔ digest.text = text := by
  rw [← digestOf?_eq_some_iff, validateDigest]
  cases digestOf? text with
  | none => simp [raiseWith]
  | some found => simp

theorem validateDigest_error {text : String} {exc : Exc} (h : validateDigest text = .error exc) :
    exc = .verifierCI .validationError ("Invalid SHA-256 hex digest: '" ++ text ++ "'")
      .validationError := by
  unfold validateDigest at h
  split at h
  next => exact (Except.error.inj h).symm
  next => cases h

def DigestLine (text : String) : Prop :=
  ∃ digest : Digest, text.toList = digest.text.toList ++ ['\n']

/-- No digest ends in a newline. -/
theorem Digest.getLast?_ne_newline (digest : Digest) : digest.text.toList.getLast? ≠ some '\n' := by
  intro hlast
  have hdigit := List.all_eq_true.mp digest.hex '\n' (List.mem_of_getLast? hlast)
  exact absurd hdigit (by decide)

theorem not_digestLine (digest : Digest) : ¬ DigestLine digest.text := by
  rintro ⟨other, hother⟩
  apply digest.getLast?_ne_newline
  rw [hother, List.getLast?_append]
  rfl

/-- The regular expression takes the digests and the digest lines. The dollar sign of the
expression also stands before a newline at the end of the text. -/
theorem isHex64_iff {text : String} :
    isHex64 text = true ↔ (∃ digest : Digest, digest.text = text) ∨ DigestLine text := by
  unfold isHex64
  constructor
  · intro h
    dsimp only at h
    rw [Bool.and_eq_true, decide_eq_true_eq] at h
    split at h
    next hnewline =>
      refine Or.inr ⟨⟨String.ofList text.toList.dropLast, ?_, hex_ofList h.2⟩, ?_⟩
      · rw [String.length_ofList, h.1]
      · have hne : text.toList ≠ [] := by
          intro hnil
          rw [hnil] at hnewline
          cases hnewline
        have hlast : text.toList.getLast hne = '\n' := by
          rwa [List.getLast?_eq_getLast_of_ne_nil hne, Option.some_inj] at hnewline
        rw [String.toList_ofList, ← hlast, List.dropLast_append_getLast]
    next => exact Or.inl ⟨⟨text, by rw [← String.length_toList, h.1], h.2⟩, rfl⟩
  · rintro (⟨digest, rfl⟩ | ⟨digest, hline⟩)
    · rw [if_neg digest.getLast?_ne_newline, Bool.and_eq_true, decide_eq_true_eq,
        String.length_toList]
      exact ⟨digest.length_eq, digest.hex⟩
    · have hlast : text.toList.getLast? = some '\n' := by
        rw [hline, List.getLast?_append]
        rfl
      rw [if_pos hlast, hline, List.dropLast_concat, Bool.and_eq_true, decide_eq_true_eq,
        String.length_toList]
      exact ⟨digest.length_eq, digest.hex⟩

/-! ## One notion of digest? -/

/-- Do both checks take the text if and only if it is 64 characters from `0-9a-f`? -/
def OneNotion (text : String) : Prop :=
  (isHex64 text = true ↔ ∃ digest, validateDigest text = .ok digest) ∧
    (isHex64 text = true ↔ text.length = 64 ∧
      (text.toList.all fun c => "0123456789abcdef".toList.contains c) = true)

theorem exists_digest_iff {text : String} : (∃ digest : Digest, digest.text = text) ↔
    text.length = 64 ∧ (text.toList.all fun c => "0123456789abcdef".toList.contains c) = true := by
  constructor
  · rintro ⟨digest, rfl⟩
    exact ⟨digest.length_eq, digest.hex⟩
  · rintro ⟨hlength, hhex⟩
    exact ⟨⟨text, hlength, hhex⟩, rfl⟩

theorem oneNotion_iff {text : String} : OneNotion text ↔ ¬ DigestLine text := by
  unfold OneNotion
  simp only [validateDigest_ok_iff, isHex64_iff, ← exists_digest_iff, and_self]
  constructor
  · intro h hline
    obtain ⟨digest, rfl⟩ := h.mp (Or.inr hline)
    exact not_digestLine digest hline
  · intro hline
    simp only [hline, or_false]

/-- Is the exception a `ValidationError`? -/
def Exc.isValidationError : Exc → Bool
  | .verifierCI .validationError _ _ => true
  | _ => false

/-- Looking the text up raises no `ValidationError`. -/
def ArtifactStore.LooksUp (sha256 : List UInt8 → Digest) (store : ArtifactStore) (text : String) :
    Prop :=
  ∀ exc, store.getPath text = .error exc ∨ store.openVerified sha256 text = .error exc ∨
    store.readBytes sha256 text = .error exc → exc.isValidationError = false

theorem openStored_error {sha256 : List UInt8 → Digest} {digest : Digest} {path : String}
    {found : StoredFile} {exc : Exc} (h : openStored sha256 digest path found = .error exc) :
    exc.isValidationError = false := by
  cases found with
  | regular content =>
      rw [openStored] at h
      split at h
      next => exact Except.error.inj h ▸ rfl
      next => cases h
  | _ => exact Except.error.inj h ▸ rfl

/-- What passes the store's own check can be looked up. -/
theorem ArtifactStore.looksUp_iff {sha256 : List UInt8 → Digest} {store : ArtifactStore}
    {text : String} :
    store.LooksUp sha256 text ↔ ∃ digest, validateDigest text = .ok digest := by
  cases hdigest : validateDigest text with
  | error exc =>
      constructor
      · intro h
        have hexc := h exc (Or.inl (by rw [getPath, hdigest]; rfl))
        rw [validateDigest_error hdigest] at hexc
        cases hexc
      · rintro ⟨digest, h⟩
        cases h
  | ok digest =>
      refine ⟨fun _ => ⟨digest, rfl⟩, fun _ exc hexc => ?_⟩
      rcases hexc with hexc | hexc | hexc
      · rw [getPath, hdigest] at hexc
        cases hexc
      · rw [openVerified, hdigest] at hexc
        exact openStored_error hexc
      · rw [readBytes, openVerified, hdigest] at hexc
        exact openStored_error hexc

theorem validateTask_isHex64 {sha256 : List UInt8 → Digest} {task : Task} {contract : Contract}
    (h : validateTask sha256 task contract = .ok ()) : isHex64 task.snapshotDigest = true := by
  by_contra hhex
  rw [Bool.not_eq_true] at hhex
  unfold validateTask at h
  rw [if_pos hhex] at h
  split_ifs at h <;> exact raiseWith_ne_ok h

/-- The checks of the model layer and of the store agree on a text unless it is a digest
with a newline after it, and so does what they let through. -/
theorem oneNotion_of_digests (sha256 : List UInt8 → Digest) :
    (∀ text, OneNotion text ↔ ¬ DigestLine text) ∧
      ∀ (store : ArtifactStore) (task : Task) (contract : Contract),
        validateTask sha256 task contract = .ok () →
          (store.LooksUp sha256 task.snapshotDigest ↔ ¬ DigestLine task.snapshotDigest) := by
  refine ⟨fun _ => oneNotion_iff, fun store task contract htask => ?_⟩
  have haccepted := validateTask_isHex64 htask
  rw [ArtifactStore.looksUp_iff, ← oneNotion_iff, OneNotion]
  simp only [haccepted, true_iff, validateDigest_ok_iff, exists_digest_iff, and_self]

/-! ### A digest read from a line -/

def lineContractDigest : Digest where
  text := "aee0a61bdd8b1a33eaf295c7225dda12f70ed1a187b7f9b70edc7cb5134badbe"
  length_eq := String.length_ofList
  hex := hex_ofList rfl

def lineContract : Contract where
  contractHash := lineContractDigest.text
  taskId := "task"
  version := "1"
  requirementHashes := []
  allowedVariation := "None"
  unresolvedQuestions := []
  evidenceDigests := []
  createdAt :=
    { micros := 0
      utcoffset := some 0
      micros_mem := Datetime.zero_mem
      utcoffset_mem := Datetime.utc_mem }

/-- A task whose snapshot has a digest with a newline after it. -/
def lineTask : Task where
  taskKey := "task@1"
  taskId := "task"
  version := "1"
  statement := ""
  adapter := "local"
  contractHash := lineContractDigest.text
  snapshotDigest := lineContractDigest.text ++ "\n"
  environmentId := "task-env"
  licence := "MIT"
  provenance := "local"
  eligibility := .eligible
  notes := ""
  createdAt := lineContract.createdAt

theorem lineTask_line : DigestLine lineTask.snapshotDigest :=
  ⟨lineContractDigest, String.toList_append⟩

theorem lineTask_valid : validateTask (fun _ => lineContractDigest) lineTask lineContract = .ok
    () := by
  have hcontract : isHex64 lineTask.contractHash = true :=
    isHex64_iff.mpr (Or.inl ⟨lineContractDigest, rfl⟩)
  have hsnapshot : isHex64 lineTask.snapshotDigest = true := isHex64_iff.mpr (Or.inr lineTask_line)
  unfold validateTask
  rw [hcontract, hsnapshot, if_neg (by decide), if_neg (by decide),
    if_neg (by simp [lineContract, contractHash]),
    if_neg (by simp [lineContract, lineTask]), if_neg (by decide), if_neg (by decide),
    if_neg (by simp [lineContract, lineTask])]

def lineStore : ArtifactStore where
  root := "/store"
  files := fun _ => none
  db :=
    { artifacts := .empty
      auditManifests := .empty
      auditRuns := .empty
      jobs := .empty
      evaluationAttempts := .empty }

/-- A digest with a newline after it, as a task may have it. -/
theorem oneNotion_of_digests_line :
    ¬ lineStore.LooksUp (fun _ => lineContractDigest) lineTask.snapshotDigest := by
  have h := (oneNotion_of_digests fun _ => lineContractDigest).2 lineStore lineTask lineContract
    lineTask_valid
  exact fun hlooks => h.mp hlooks lineTask_line

/-- The regular expression takes the digest with the newline, since `$` matches in front of it,
and the store refuses it. -/
theorem digestLine_accepted : isHex64 lineTask.snapshotDigest = true ∧
    ¬ ∃ digest, validateDigest lineTask.snapshotDigest = .ok digest := by
  refine ⟨isHex64_iff.mpr (Or.inr lineTask_line), ?_⟩
  rintro ⟨digest, hdigest⟩
  exact not_digestLine digest (validateDigest_ok_iff.mp hdigest ▸ lineTask_line)

end VerifierCI
