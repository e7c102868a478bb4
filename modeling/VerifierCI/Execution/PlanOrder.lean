import VerifierCI.Execution.Planner
import VerifierCI.Python.Lists
import VerifierCI.Python.Sorted

/-! # The order of a plan

The expansion is the set of planned coordinates in their order. Neither the
order of the pins and cases of a manifest nor which verifier of a pin is the
baseline can be told from it.
-/

namespace VerifierCI

open Python

/-! ## Rearranged manifests -/

/-- The cases of a pin in another order, and its verifiers in either. -/
structure TaskPin.Rearranged (pin pin' : TaskPin) : Prop where
  taskKey : pin'.taskKey = pin.taskKey
  caseIds : pin'.caseIds.Perm pin.caseIds
  verifiers : pin'.verifiers.Perm pin.verifiers

structure AuditManifest.Rearranged (manifest manifest' : AuditManifest) : Prop where
  runId : manifest'.runId = manifest.runId
  maxRepetitions : manifest'.maxRepetitions = manifest.maxRepetitions
  taskPins : ∃ pins, pins.Perm manifest.taskPins ∧
    List.Forall₂ TaskPin.Rearranged pins manifest'.taskPins

theorem TaskPin.Rearranged.cells {pin pin' : TaskPin} (h : pin.Rearranged pin') :
    pin.cells.Perm pin'.cells := by
  unfold TaskPin.cells
  rw [h.taskKey]
  refine (h.caseIds.symm.flatMap_right _).trans ?_
  exact List.Perm.flatMap_left _ fun caseId _ => h.verifiers.symm.map _

theorem AuditManifest.Rearranged.plannedCells {manifest manifest' : AuditManifest}
    (h : manifest.Rearranged manifest') : manifest.plannedCells.Perm manifest'.plannedCells := by
  obtain ⟨pins, hperm, hpins⟩ := h.taskPins
  exact (hperm.symm.flatMap_right _).trans
    (flatMap_perm_of_forall₂ (hpins.imp fun _ _ hpin => hpin.cells))

/-! ## Expansions -/

section Expand

variable {sha256 : List UInt8 → Digest} {manifest manifest' : AuditManifest}

def Job.sortKey (job : Job) : String ×ₗ String ×ₗ String ×ₗ Int :=
  toLex (job.taskKey, toLex (job.caseId, toLex (job.verifierKey, job.repetition)))

theorem Job.coordinateLe_iff (a b : Job) : a.CoordinateLe b ↔ a.sortKey ≤ b.sortKey := by
  simp only [Job.CoordinateLe, Job.sortKey, Prod.Lex.toLex_le_toLex]

/-- A planned job is determined by what the expansion is sorted by. -/
theorem eq_of_sortKey {job job' : Job} (hjob : job ∈ expanded sha256 manifest)
    (hjob' : job' ∈ expanded sha256 manifest) (h : job.sortKey = job'.sortKey) : job = job' := by
  obtain ⟨key, _, rep, _, rfl⟩ := mem_expand.mp (expand_perm.mem_iff.mpr hjob)
  obtain ⟨key', _, rep', _, rfl⟩ := mem_expand.mp (expand_perm.mem_iff.mpr hjob')
  obtain ⟨htask, h⟩ := Prod.mk.inj (toLex_inj.mp h)
  obtain ⟨hcase, h⟩ := Prod.mk.inj (toLex_inj.mp h)
  obtain ⟨hverifier, hrep⟩ := Prod.mk.inj (toLex_inj.mp h)
  simp only [pendingJob] at htask hcase hverifier hrep
  rw [htask, hcase, hverifier, hrep]

/-- The jobs of a rearranged manifest are the same jobs in another order, which the sort
undoes. -/
theorem expanded_perm (h : manifest.Rearranged manifest') :
    (expanded sha256 manifest).Perm (expanded sha256 manifest') := by
  have hjobs : cellJobs sha256 manifest' = cellJobs sha256 manifest := by
    funext key
    rw [cellJobs, cellJobs, AuditManifest.repetitions, AuditManifest.repetitions, h.runId,
      h.maxRepetitions]
  rw [expanded_eq, expanded_eq, hjobs]
  exact h.plannedCells.flatMap_right _

/-- A job has the coordinates of a pinned case under one of the verifiers of the pin. -/
theorem coordinates_mem_expand {runId taskKey caseId verifierKey : String} {repetition : Int} :
    (∃ job ∈ expand sha256 manifest,
      job.coordinates = (runId, taskKey, caseId, verifierKey, repetition)) ↔
        runId = manifest.runId ∧ 0 ≤ repetition ∧ repetition < manifest.maxRepetitions ∧
          ∃ pin ∈ manifest.taskPins, pin.taskKey = taskKey ∧ caseId ∈ pin.caseIds ∧
            (verifierKey = pin.verifierBaselineVersion ∨
              verifierKey = pin.verifierCandidateVersion) := by
  constructor
  · rintro ⟨job, hjob, hcoordinates⟩
    obtain ⟨key, hkey, rep, hrep, rfl⟩ := mem_expand.mp hjob
    obtain ⟨pin, hpin, hcell⟩ := List.mem_flatMap.mp hkey
    obtain ⟨pinned, hpinned, hverifier⟩ := List.mem_flatMap.mp hcell
    obtain ⟨verifier, hverifier, rfl⟩ := List.mem_map.mp hverifier
    simp only [Job.coordinates, pendingJob, Prod.mk.injEq] at hcoordinates
    obtain ⟨rfl, rfl, rfl, rfl, rfl⟩ := hcoordinates
    refine ⟨rfl, Int.natCast_nonneg rep, hrep, pin, hpin, rfl, hpinned, ?_⟩
    simpa [TaskPin.verifiers] using hverifier
  · rintro ⟨rfl, hnonneg, hlt, pin, hpin, rfl, hcase, hverifier⟩
    refine ⟨pendingJob sha256 manifest.runId pin.taskKey caseId verifierKey repetition.toNat,
      mem_expand.mpr ⟨(pin.taskKey, caseId, verifierKey), ?_, repetition.toNat, by omega, rfl⟩, ?_⟩
    · refine List.mem_flatMap.mpr ⟨pin, hpin, List.mem_flatMap.mpr ⟨caseId, hcase, ?_⟩⟩
      refine List.mem_map.mpr ⟨verifierKey, ?_, rfl⟩
      simpa [TaskPin.verifiers] using hverifier
    · simp only [Job.coordinates, pendingJob, Int.toNat_of_nonneg hnonneg]

/-- The expansion covers the plan in its order, with jobs nobody has claimed, and
is the same for every arrangement of the manifest. -/
theorem expand_order (sha256 : List UInt8 → Digest) (manifest : AuditManifest) :
    (∀ runId taskKey caseId verifierKey repetition,
      (∃ job ∈ expand sha256 manifest,
        job.coordinates = (runId, taskKey, caseId, verifierKey, repetition)) ↔
          runId = manifest.runId ∧ 0 ≤ repetition ∧ repetition < manifest.maxRepetitions ∧
            ∃ pin ∈ manifest.taskPins, pin.taskKey = taskKey ∧ caseId ∈ pin.caseIds ∧
              (verifierKey = pin.verifierBaselineVersion ∨
                verifierKey = pin.verifierCandidateVersion)) ∧
    (expand sha256 manifest).Pairwise Job.CoordinateLe ∧
    (∀ job ∈ expand sha256 manifest, job.state = .pending ∧ job.fence = 0) ∧
    ∀ manifest', manifest.Rearranged manifest' →
      expand sha256 manifest' = expand sha256 manifest ∧
        computeExpansionDigest sha256 (expand sha256 manifest') =
          computeExpansionDigest sha256 (expand sha256 manifest) := by
  refine ⟨fun _ _ _ _ _ => coordinates_mem_expand, pairwise_sorted Job.coordinateLe_iff _, ?_, ?_⟩
  · intro job hjob
    obtain ⟨key, _, rep, _, rfl⟩ := mem_expand.mp hjob
    exact ⟨rfl, rfl⟩
  · intro manifest' h
    -- A list sorted by a key without repetitions depends on its elements only.
    have hexpand : expand sha256 manifest = expand sha256 manifest' :=
      sorted_eq_of_perm Job.coordinateLe_iff (fun _ ha _ hb => eq_of_sortKey ha hb)
        (expanded_perm h)
    rw [hexpand]
    exact ⟨rfl, rfl⟩

end Expand

/-- Baseline and candidate of the small pin swapped. -/
example : smallManifest.Rearranged { smallManifest with
    taskPins := [{ smallPin with
      verifierBaselineVersion := "candidate"
      verifierCandidateVersion := "verifier" }] } where
  runId := rfl
  maxRepetitions := rfl
  taskPins := ⟨[smallPin], .refl _, .cons ⟨rfl, .refl _, .swap _ _ _⟩ .nil⟩

end VerifierCI
