import Mathlib.Data.Prod.Basic
import Mathlib.Data.List.ProdSigma
import VerifierCI.Execution.Matrix

/-! # Identities of planned jobs

A plan can be stored and reduced only if its job ids and its coordinates are
pairwise distinct. Nothing in the planner checks the pins for it.
-/

namespace VerifierCI

open Python

/-! ## Coordinates and job ids -/

/-- The canonical bytes determine the coordinates. -/
theorem coordinateBytes_inj {runId taskKey caseId verifierKey runId' taskKey' caseId'
    verifierKey' : String} {rep rep' : Int}
    (h : coordinateBytes runId taskKey caseId verifierKey rep =
      coordinateBytes runId' taskKey' caseId' verifierKey' rep') :
    (runId, taskKey, caseId, verifierKey, rep) =
      (runId', taskKey', caseId', verifierKey', rep') := by
  have hsorted := sortKeys_eq_of_canonicalBytes_eq
    (by simp [Json.Dumpable, Json.itemsDumpable_iff])
    (by simp [Json.Dumpable, Json.itemsDumpable_iff]) h
  simpa [Json.sortKeys, Json.sortItems_eq] using hsorted

def Job.coordinateBytes (job : Job) : List UInt8 :=
  VerifierCI.coordinateBytes job.runId job.taskKey job.caseId job.verifierKey job.repetition

theorem Job.coordinates_eq_of_bytes {job other : Job}
    (h : job.coordinateBytes = other.coordinateBytes) : job.coordinates = other.coordinates :=
  coordinateBytes_inj h

/-- What the table of jobs and the matrix require of a list of jobs. -/
structure UniquePlan (jobs : List Job) : Prop where
  primaryKey : (jobs.map Job.jobId).Nodup
  coordinates : (jobs.map Job.coordinates).Nodup
  distinct : requireDistinct "job_id" (jobs.map Job.jobId) = .ok ()

theorem requireDistinct_eq_ok {what : String} {ids : List String} :
    requireDistinct what ids = .ok () ↔ ids.Nodup := by
  have hiff : firstDuplicate? [] ids = none ↔ ids.Nodup := by
    simp [firstDuplicate?_eq_none_iff]
  rw [← hiff, requireDistinct]
  cases firstDuplicate? [] ids with
  | none => simp
  | some id => simp [raiseWith]

section Expansion

variable {sha256 : List UInt8 → Digest} {manifest : AuditManifest}

theorem jobId_of_mem_expand {job : Job} (hjob : job ∈ expand sha256 manifest) :
    job.jobId = (sha256 job.coordinateBytes).text := by
  obtain ⟨key, _, rep, _, rfl⟩ := mem_expand.mp hjob
  rfl

/-- Planned job ids are distinct exactly if the coordinates are. -/
theorem jobIds_nodup_iff
    (hfree : CollisionFree sha256 ((expand sha256 manifest).map Job.coordinateBytes)) :
    ((expand sha256 manifest).map Job.jobId).Nodup ↔
      ((expand sha256 manifest).map Job.coordinates).Nodup := by
  constructor
  · intro h
    refine List.Nodup.map_on ?_ (List.Nodup.of_map _ h)
    intro job hjob other hother heq
    apply List.inj_on_of_nodup_map h hjob hother
    simp only [Job.coordinates, Prod.mk.injEq] at heq
    rw [jobId_of_mem_expand hjob, jobId_of_mem_expand hother, Job.coordinateBytes,
      Job.coordinateBytes, heq.1, heq.2.1, heq.2.2.1, heq.2.2.2.1, heq.2.2.2.2]
  · intro h
    refine List.Nodup.map_on ?_ (List.Nodup.of_map _ h)
    intro job hjob other hother heq
    rw [jobId_of_mem_expand hjob, jobId_of_mem_expand hother] at heq
    apply List.inj_on_of_nodup_map h hjob hother
    exact Job.coordinates_eq_of_bytes (hfree _ (List.mem_map_of_mem hjob) _
      (List.mem_map_of_mem hother) heq)

/-! ## Planned cells -/

/-- The coordinates of the plan: a repetition of a planned cell. -/
def coordinatesAt (runId : String) (cell : (String × String × String) × Nat) :
    String × String × String × String × Int :=
  (runId, cell.1.1, cell.1.2.1, cell.1.2.2, cell.2)

theorem coordinatesAt_injective (runId : String) : Function.Injective (coordinatesAt runId) := by
  rintro ⟨⟨task, case, verifier⟩, rep⟩ ⟨⟨task', case', verifier'⟩, rep'⟩ h
  simpa [coordinatesAt, and_assoc] using h

/-- The expansion is the product of the planned cells and the repetitions. -/
theorem coordinates_expanded : (expanded sha256 manifest).map Job.coordinates =
    (manifest.plannedCells.product manifest.repetitions).map (coordinatesAt manifest.runId) := by
  rw [expanded_eq, List.map_flatMap, List.product, List.map_flatMap]
  apply List.flatMap_congr
  intro key _
  simp only [cellJobs, List.map_map]
  rfl

/-- A product repeats nothing if neither factor does; with a second factor that is not empty the
converse holds as well. -/
theorem nodup_product_iff {α β : Type} {first : List α} {second : List β} (hne : second ≠ [])
    (hsecond : second.Nodup) : (first.product second).Nodup ↔ first.Nodup := by
  refine ⟨fun h => ?_, fun h => h.product hsecond⟩
  obtain ⟨_, hdisjoint⟩ := List.nodup_flatMap.mp h
  obtain ⟨b, hb⟩ := List.exists_mem_of_ne_nil second hne
  refine hdisjoint.imp ?_
  rintro a a' hdis rfl
  exact hdis (List.mem_map_of_mem hb) (List.mem_map_of_mem hb)

/-- The coordinates are distinct exactly if no cell is planned twice. -/
theorem coordinates_nodup_iff : ((expand sha256 manifest).map Job.coordinates).Nodup ↔
    manifest.maxRepetitions ≤ 0 ∨ manifest.plannedCells.Nodup := by
  rw [(expand_perm.map Job.coordinates).nodup_iff, coordinates_expanded,
    List.nodup_map_iff (coordinatesAt_injective manifest.runId)]
  by_cases hempty : manifest.maxRepetitions ≤ 0
  · have hnil : manifest.repetitions = [] := by
      rw [AuditManifest.repetitions, List.range_eq_nil]
      omega
    rw [hnil, List.product, List.flatMap_eq_nil_iff.mpr fun _ _ => List.map_nil]
    simp [hempty]
  · have hne : manifest.repetitions ≠ [] := by
      rw [AuditManifest.repetitions, ne_eq, List.range_eq_nil]
      omega
    rw [nodup_product_iff hne List.nodup_range]
    simp [hempty]

end Expansion

/-! ## Pins -/

/-- Each pin names two verifiers and lists a case once, and no two pins share a
cell. -/
structure DistinctPins (pins : List TaskPin) : Prop where
  verifiers : ∀ pin ∈ pins, pin.caseIds ≠ [] →
    pin.verifierBaselineVersion ≠ pin.verifierCandidateVersion
  cases : ∀ pin ∈ pins, pin.caseIds.Nodup
  apart : pins.Pairwise fun pin other => pin.taskKey = other.taskKey →
    ∀ caseId ∈ pin.caseIds, caseId ∈ other.caseIds →
      ∀ verifierKey ∈ pin.verifiers, verifierKey ∉ other.verifiers

theorem TaskPin.mem_cells {pin : TaskPin} {taskKey caseId verifierKey : String} :
    (taskKey, caseId, verifierKey) ∈ pin.cells ↔
      taskKey = pin.taskKey ∧ caseId ∈ pin.caseIds ∧ verifierKey ∈ pin.verifiers := by
  simp only [TaskPin.cells, List.mem_flatMap, List.mem_map, Prod.mk.injEq]
  constructor
  · rintro ⟨_, hcase, _, hverifier, rfl, rfl, rfl⟩
    exact ⟨rfl, hcase, hverifier⟩
  · rintro ⟨rfl, hcase, hverifier⟩
    exact ⟨caseId, hcase, verifierKey, hverifier, rfl, rfl, rfl⟩

/-- A pin plans a cell twice if it lists a case twice or names one verifier in both roles. -/
theorem TaskPin.cells_nodup_iff {pin : TaskPin} :
    pin.cells.Nodup ↔ (pin.caseIds ≠ [] →
      pin.verifierBaselineVersion ≠ pin.verifierCandidateVersion) ∧ pin.caseIds.Nodup := by
  have hcells : pin.cells = (pin.caseIds.product pin.verifiers).map fun cell =>
      (pin.taskKey, cell.1, cell.2) := by
    simp only [TaskPin.cells, List.product, List.map_flatMap, List.map_map, Function.comp_def]
  have hinj : Function.Injective fun cell : String × String => (pin.taskKey, cell.1, cell.2) := by
    rintro ⟨case, verifier⟩ ⟨case', verifier'⟩ h
    simpa using h
  have hverifiers : pin.verifiers.Nodup ↔
      pin.verifierBaselineVersion ≠ pin.verifierCandidateVersion := by
    simp [TaskPin.verifiers]
  rw [hcells, List.nodup_map_iff hinj, ← hverifiers]
  constructor
  · intro h
    have hnodup : pin.caseIds ≠ [] → pin.verifiers.Nodup := by
      intro hne
      obtain ⟨caseId, hcase⟩ := List.exists_mem_of_ne_nil _ hne
      exact List.Nodup.of_map _ ((List.nodup_flatMap.mp h).1 caseId hcase)
    refine ⟨hnodup, ?_⟩
    by_cases hne : pin.caseIds = []
    · rw [hne]
      exact List.nodup_nil
    · exact (nodup_product_iff (by simp [TaskPin.verifiers]) (hnodup hne)).mp h
  · rintro ⟨hnodup, hcases⟩
    by_cases hne : pin.caseIds = []
    · rw [hne]
      exact List.nodup_nil
    · exact hcases.product (hnodup hne)

/-- Over several pins no cell may be shared either. -/
theorem plannedCells_nodup_iff {manifest : AuditManifest} :
    manifest.plannedCells.Nodup ↔ DistinctPins manifest.taskPins := by
  have hdisjoint : ∀ pin other : TaskPin, List.Disjoint pin.cells other.cells ↔
      (pin.taskKey = other.taskKey → ∀ caseId ∈ pin.caseIds, caseId ∈ other.caseIds →
        ∀ verifierKey ∈ pin.verifiers, verifierKey ∉ other.verifiers) := by
    intro pin other
    constructor
    · intro h htask caseId hcase hcase' verifierKey hverifier hverifier'
      exact h (TaskPin.mem_cells.mpr ⟨rfl, hcase, hverifier⟩)
        (TaskPin.mem_cells.mpr ⟨htask, hcase', hverifier'⟩)
    · rintro h ⟨taskKey, caseId, verifierKey⟩ hmem hmem'
      obtain ⟨rfl, hcase, hverifier⟩ := TaskPin.mem_cells.mp hmem
      obtain ⟨htask, hcase', hverifier'⟩ := TaskPin.mem_cells.mp hmem'
      exact h htask caseId hcase hcase' verifierKey hverifier hverifier'
  have happart : manifest.taskPins.Pairwise (Function.onFun List.Disjoint TaskPin.cells) ↔
      manifest.taskPins.Pairwise fun pin other => pin.taskKey = other.taskKey →
        ∀ caseId ∈ pin.caseIds, caseId ∈ other.caseIds →
          ∀ verifierKey ∈ pin.verifiers, verifierKey ∉ other.verifiers :=
    List.Pairwise.iff hdisjoint
  rw [AuditManifest.plannedCells, List.nodup_flatMap, happart]
  constructor
  · rintro ⟨hcells, happart⟩
    exact ⟨fun pin hpin => (TaskPin.cells_nodup_iff.mp (hcells pin hpin)).1,
      fun pin hpin => (TaskPin.cells_nodup_iff.mp (hcells pin hpin)).2, happart⟩
  · rintro ⟨hverifiers, hcases, happart⟩
    exact ⟨fun pin hpin => TaskPin.cells_nodup_iff.mpr ⟨hverifiers pin hpin, hcases pin hpin⟩,
      happart⟩

/-! ## Manifests -/

/-- What a manifest takes over from the request it was built for. -/
theorem buildManifest_ok {sha256 : List UInt8 → Digest} {uuid : String} {now : Datetime}
    {request : ManifestRequest} {manifest : AuditManifest}
    (h : buildManifest sha256 uuid now request = .ok manifest) :
    manifest.taskPins = request.effectivePins ∧
      manifest.maxRepetitions = request.effectiveRepetitions := by
  unfold buildManifest at h
  simp only at h
  split_ifs at h with hempty
  · cases h
  · obtain ⟨_, hmanifest⟩ := bind_eq_ok_unit.mp h
    obtain rfl := Except.ok.inj hmanifest
    exact ⟨rfl, rfl⟩

/-- The plan of a built manifest is unique exactly if it is empty for lack of
repetitions or its pins are distinct. -/
theorem uniquePlan_iff {sha256 : List UInt8 → Digest} {uuid : String} {now : Datetime}
    {request : ManifestRequest} {manifest : AuditManifest}
    (hbuild : buildManifest sha256 uuid now request = .ok manifest)
    (hfree : CollisionFree sha256 ((expand sha256 manifest).map Job.coordinateBytes)) :
    UniquePlan (expand sha256 manifest) ↔
      request.effectiveRepetitions ≤ 0 ∨ DistinctPins request.effectivePins := by
  obtain ⟨hpins, hrepetitions⟩ := buildManifest_ok hbuild
  have hiff : ((expand sha256 manifest).map Job.coordinates).Nodup ↔
      manifest.maxRepetitions ≤ 0 ∨ manifest.plannedCells.Nodup :=
    coordinates_nodup_iff
  rw [← hpins, ← hrepetitions, ← plannedCells_nodup_iff, ← hiff]
  constructor
  · exact UniquePlan.coordinates
  · intro hcoordinates
    have hids := (jobIds_nodup_iff hfree).mpr hcoordinates
    exact ⟨hids, hcoordinates, requireDistinct_eq_ok.mpr hids⟩

theorem small_collisionFree :
    CollisionFree planSha256 ((expand planSha256 smallManifest).map Job.coordinateBytes) := by
  have hbytes : (expand planSha256 smallManifest).map Job.coordinateBytes =
      [coordinateBytes "run" "task" "case" "candidate" 0,
        coordinateBytes "run" "task" "case" "verifier" 0] := by
    decide +kernel
  have hne : (planSha256 (coordinateBytes "run" "task" "case" "candidate" 0)).text ≠
      (planSha256 (coordinateBytes "run" "task" "case" "verifier" 0)).text := by
    decide +kernel
  rw [hbytes]
  exact collisionFree_pair fun heq => absurd heq hne

/-- The small plan has one pin with one case and two verifiers. -/
theorem uniquePlan_iff_small :
    UniquePlan (expand planSha256 smallManifest) ↔
      smallRequest.effectiveRepetitions ≤ 0 ∨ DistinctPins smallRequest.effectivePins :=
  uniquePlan_iff buildManifest_small small_collisionFree

/-! ## A candidate equal to its baseline -/

def twinExpansionDigest : Digest where
  text := "ef1767dad9282eb654772f0b4ba26b6ae6413e559a5fe230c5fa517f53741322"
  length_eq := String.length_ofList
  hex := hex_ofList rfl

def twinManifestDigest : Digest where
  text := "e47ab4c1d6b1c76c767b9eeeece2dee1f3d4b40c944e64158525ef5a3cd2e236"
  length_eq := String.length_ofList
  hex := hex_ofList rfl

/-- The candidate is the baseline. -/
def twinPin : TaskPin :=
  { smallPin with verifierCandidateVersion := "verifier" }

def twinManifest : AuditManifest :=
  { smallManifest with
    manifestHash := twinManifestDigest.text
    taskPins := [twinPin]
    expansionDigest := twinExpansionDigest.text }

/-- SHA-256 on what planning the twins hashes. -/
def twinSha256 : List UInt8 → Digest :=
  knownSha256 [
    (ascii "default_config", configDigest),
    (ascii "[\"run\",\"task\",\"case\",\"verifier\",0]", baselineDigest),
    (ascii ("[\"" ++ baselineDigest.text ++ "\", \"" ++ baselineDigest.text ++ "\"]"),
      twinExpansionDigest)] twinManifestDigest

theorem buildManifest_twin :
    buildManifest twinSha256 "uuid" smallManifest.timestamp
      { smallRequest with pins := [twinPin] } = .ok twinManifest := by
  unfold buildManifest
  simp only [canonicalBytes_eq]
  decide +kernel

/-- Both jobs of the case get the same id, without a collision: the pin names one verifier in
both roles. -/
theorem plan_not_unique : ∃ manifest,
    buildManifest twinSha256 "uuid" smallManifest.timestamp
        { smallRequest with pins := [twinPin] } = .ok manifest ∧
      CollisionFree twinSha256 ((expand twinSha256 manifest).map Job.coordinateBytes) ∧
      ¬ UniquePlan (expand twinSha256 manifest) := by
  have hbytes : (expand twinSha256 twinManifest).map Job.coordinateBytes =
      [coordinateBytes "run" "task" "case" "verifier" 0,
        coordinateBytes "run" "task" "case" "verifier" 0] := by
    decide +kernel
  have htwice : ¬ ((expand twinSha256 twinManifest).map Job.coordinates).Nodup := by
    decide +kernel
  refine ⟨twinManifest, buildManifest_twin, ?_, fun h => htwice h.coordinates⟩
  rw [hbytes]
  exact collisionFree_pair fun _ => rfl

end VerifierCI
