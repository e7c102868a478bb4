import Mathlib.Logic.Relation
import VerifierCI.Execution.Statements

/-! # The queue moves every ledger along its own transitions

The database is read as one ledger for each job. Every operation takes each
ledger through ledger transitions, whatever handle, attempt or clock reading
it is called with, and a successful commit is the only one that selects.
-/

namespace VerifierCI

open Python Relational

def Db.attemptsOf (db : Db) (jobId : String) : List AttemptRow :=
  db.evaluationAttempts.select fun row => row.jobId = jobId

def Db.ledger (db : Db) (jobId : String) : Option Ledger :=
  (db.jobs.find? jobId).map fun job => ⟨job, db.attemptsOf jobId⟩

theorem ledger_eq_some_iff {db : Db} {jobId : String} {l : Ledger} :
    db.ledger jobId = some l ↔
      db.jobs.find? jobId = some l.job ∧ l.attempts = db.attemptsOf jobId := by
  rw [Db.ledger, Option.map_eq_some_iff]
  constructor
  · rintro ⟨job, hjob, rfl⟩
    exact ⟨hjob, rfl⟩
  · rintro ⟨hjob, hattempts⟩
    exact ⟨l.job, hjob, by rw [← hattempts]⟩

theorem mem_attemptsOf {db : Db} {jobId : String} {row : AttemptRow} :
    row ∈ db.attemptsOf jobId ↔ row ∈ db.evaluationAttempts ∧ row.jobId = jobId := by
  rw [Db.attemptsOf, Table.mem_select, decide_eq_true_eq]

/-- The ledger of a stored job, at the job's own id. -/
def Db.ledgerOf (db : Db) (job : Job) : Ledger :=
  ⟨job, db.attemptsOf job.jobId⟩

theorem ledger_of_find? {db : Db} {jobId : String} {job : Job}
    (hjob : db.jobs.find? jobId = some job) : db.ledger jobId = some (db.ledgerOf job) := by
  rw [ledger_eq_some_iff]
  exact ⟨hjob, by rw [Db.ledgerOf, Table.key_of_find? hjob]⟩

/-- Every attempt row belongs to a stored job. -/
def Db.Owned (db : Db) : Prop :=
  ∀ row ∈ db.evaluationAttempts, (db.jobs.find? row.jobId).isSome = true

/-- What holds of the queue in every reachable state. -/
structure QueueInv (db : Db) : Prop where
  ledgers : ∀ jobId l, db.ledger jobId = some l → l.Inv
  owned : db.Owned

/-! ## Evolution of all ledgers -/

/-- Every ledger moves along `R`; jobs and the tables the queue only reads stay. -/
structure Evolves (R : Ledger → Ledger → Prop) (db db' : Db) : Prop where
  ledger : ∀ jobId l, db.ledger jobId = some l →
    ∃ l', db'.ledger jobId = some l' ∧ Relation.ReflTransGen R l l'
  origin : ∀ jobId l', db'.ledger jobId = some l' → ∃ l, db.ledger jobId = some l
  owned : db.Owned → db'.Owned
  artifacts : db'.artifacts = db.artifacts
  auditManifests : db'.auditManifests = db.auditManifests

namespace Evolves

variable {R S : Ledger → Ledger → Prop} {db db' db'' : Db}

theorem refl (R : Ledger → Ledger → Prop) (db : Db) : Evolves R db db :=
  ⟨fun _ l hl => ⟨l, hl, .refl⟩, fun _ l hl => ⟨l, hl⟩, id, rfl, rfl⟩

/-- Changes of the queue can be put one behind the other, ledger by ledger. -/
theorem trans (first : Evolves R db db') (second : Evolves R db' db'') : Evolves R db db'' where
  ledger := by
    intro jobId l hl
    obtain ⟨l', hl', hpath⟩ := first.ledger jobId l hl
    obtain ⟨l'', hl'', hpath'⟩ := second.ledger jobId l' hl'
    exact ⟨l'', hl'', hpath.trans hpath'⟩
  origin := by
    intro jobId l'' hl''
    obtain ⟨l', hl'⟩ := second.origin jobId l'' hl''
    exact first.origin jobId l' hl'
  owned := second.owned ∘ first.owned
  artifacts := second.artifacts.trans first.artifacts
  auditManifests := second.auditManifests.trans first.auditManifests

theorem mono (hRS : ∀ l l', R l l' → S l l') (h : Evolves R db db') : Evolves S db db' where
  ledger := by
    intro jobId l hl
    obtain ⟨l', hl', hpath⟩ := h.ledger jobId l hl
    exact ⟨l', hl', Relation.ReflTransGen.mono hRS _ _ hpath⟩
  origin := h.origin
  owned := h.owned
  artifacts := h.artifacts
  auditManifests := h.auditManifests

/-- The ledgers do not mention the runs. -/
theorem of_runs {runs : Table AuditRunRow.runId} : Evolves R db { db with auditRuns := runs } :=
  ⟨fun _ l hl => ⟨l, hl, .refl⟩, fun _ l hl => ⟨l, hl⟩, id, rfl, rfl⟩

/-- A fact every transition keeps is kept by every path of one ledger. -/
theorem path_induction {good : Ledger → Prop} (hstep : ∀ l l', R l l' → good l → good l')
    {l l' : Ledger} (hpath : Relation.ReflTransGen R l l') (h : good l) : good l' := by
  induction hpath with
  | refl => exact h
  | tail _ hlast ih => exact hstep _ _ hlast ih

/-- The invariant of the ledgers is all there is to the invariant of the queue. -/
theorem queueInv (h : Evolves Ledger.Step db db') (hinv : QueueInv db) : QueueInv db' where
  ledgers := by
    intro jobId l' hl'
    obtain ⟨l, hl⟩ := h.origin jobId l' hl'
    obtain ⟨l'', hl'', hpath⟩ := h.ledger jobId l hl
    obtain rfl : l' = l'' := Option.some.inj (hl'.symm.trans hl'')
    exact path_induction (fun _ _ hstep => hstep.inv) hpath (hinv.ledgers jobId l hl)
  owned := h.owned hinv.owned

theorem step (h : Evolves Ledger.Quiet db db') : Evolves Ledger.Step db db' :=
  h.mono fun _ _ hquiet => Or.inl hquiet

/-- A loop whose every turn evolves the ledgers evolves them. -/
theorem foldlM {α : Type} {body : Db → α → Except Exc Db} {items : List α}
    (hbody : ∀ item ∈ items, ∀ db db', body db item = .ok db' → Evolves R db db')
    (h : items.foldlM body db = .ok db') : Evolves R db db' := by
  induction items generalizing db with
  | nil =>
      cases h
      exact refl R _
  | cons item rest ih =>
      rw [List.foldlM_cons, bind_eq_ok] at h
      obtain ⟨middle, hfirst, hrest⟩ := h
      have htail := ih (fun other hother => hbody other (List.mem_cons_of_mem item hother)) hrest
      exact (hbody item List.mem_cons_self db middle hfirst).trans htail

end Evolves

/-! ## Statements as evolutions -/

section Statements

variable {R : Ledger → Ledger → Prop} {db db' : Db}

theorem attemptsOf_update {p : AttemptRow → Bool} {f : AttemptRow → AttemptRow}
    {hkey : ∀ row, (f row).attemptId = row.attemptId} (hjob : ∀ row, (f row).jobId = row.jobId)
    (jobId : String) :
    (db.evaluationAttempts.update p f hkey).select (fun row => row.jobId = jobId) =
      rewriteRows p f (db.attemptsOf jobId) :=
  Table.select_update _ fun row _ => by rw [hjob row]

/-- Two tables rewritten row by row: each job by `f` where `p`, each attempt by
`g` where `q`. -/
theorem Evolves.of_rewrite {p : Job → Bool} {f : Job → Job} (hf : ∀ row, (f row).jobId = row.jobId)
    {q : AttemptRow → Bool} {g : AttemptRow → AttemptRow}
    (hg : ∀ row, (g row).attemptId = row.attemptId) (hjob : ∀ row, (g row).jobId = row.jobId)
    (hstep : ∀ job ∈ db.jobs, Relation.ReflTransGen R (db.ledgerOf job)
      ⟨if p job then f job else job, rewriteRows q g (db.attemptsOf job.jobId)⟩) :
    Evolves R db { db with
      jobs := db.jobs.update p f hf
      evaluationAttempts := db.evaluationAttempts.update q g hg } where
  -- each ledger is rewritten on its own, and no row changes its job
  ledger := by
    intro jobId l hl
    obtain ⟨hfind, hattempts⟩ := ledger_eq_some_iff.mp hl
    have hid : l.job.jobId = jobId := Table.key_of_find? hfind
    refine ⟨⟨if p l.job then f l.job else l.job, rewriteRows q g l.attempts⟩,
      ledger_eq_some_iff.mpr ⟨?_, ?_⟩, ?_⟩
    · rw [Table.find?_update, hfind]
      rfl
    · rw [Db.attemptsOf, attemptsOf_update hjob, ← hattempts]
    · have hpath := hstep l.job (Table.mem_of_find? hfind)
      rwa [Db.ledgerOf, hid, ← hattempts] at hpath
  origin := by
    intro jobId l' hl'
    obtain ⟨hfind, _⟩ := ledger_eq_some_iff.mp hl'
    rw [Table.find?_update, Option.map_eq_some_iff] at hfind
    obtain ⟨job, hfound, _⟩ := hfind
    exact ⟨_, ledger_of_find? hfound⟩
  owned := by
    intro howned row hrow
    have hmem : row ∈ db.evaluationAttempts.update q g hg := hrow
    obtain ⟨old, hold, rfl⟩ := Table.mem_update.mp hmem
    have hsome := howned old hold
    have hsame : (if q old then g old else old).jobId = old.jobId := by
      split
      · exact hjob old
      · rfl
    rw [hsame, Table.find?_update, Option.isSome_map]
    exact hsome
  artifacts := rfl
  auditManifests := rfl

/-- An update of jobs alone. -/
theorem Evolves.of_jobs {p : Job → Bool} {f : Job → Job} {hf : ∀ row, (f row).jobId = row.jobId}
    (hstep : ∀ job ∈ db.jobs, p job = true →
      Relation.ReflTransGen R (db.ledgerOf job) ⟨f job, db.attemptsOf job.jobId⟩) :
    Evolves R db (db.updateJobs p f hf) where
  ledger := by
    intro jobId l hl
    obtain ⟨hfind, hattempts⟩ := ledger_eq_some_iff.mp hl
    have hid : l.job.jobId = jobId := Table.key_of_find? hfind
    refine ⟨⟨if p l.job then f l.job else l.job, l.attempts⟩,
      ledger_eq_some_iff.mpr ⟨?_, hattempts⟩, ?_⟩
    · rw [updateJobs_jobs, Table.find?_update, hfind]
      rfl
    · cases hp : p l.job with
      | false => exact .refl
      | true =>
          have hpath := hstep l.job (Table.mem_of_find? hfind) hp
          rw [Db.ledgerOf, hid, ← hattempts] at hpath
          simpa using hpath
  origin := by
    intro jobId l' hl'
    obtain ⟨hfind, _⟩ := ledger_eq_some_iff.mp hl'
    rw [updateJobs_jobs, Table.find?_update, Option.map_eq_some_iff] at hfind
    obtain ⟨job, hfound, _⟩ := hfind
    exact ⟨_, ledger_of_find? hfound⟩
  owned := by
    intro howned row hrow
    rw [updateJobs_jobs, Table.find?_update, Option.isSome_map]
    exact howned row hrow
  artifacts := rfl
  auditManifests := rfl

theorem failPending_evolves (db : Db) (runId : String) :
    Evolves Ledger.Quiet db (failPending db runId) := by
  apply Evolves.of_jobs
  intro job _ hp
  simp only [Bool.and_eq_true, decide_eq_true_eq] at hp
  exact .single (.cancel hp.2)

theorem updateRunState_evolves {runId : String} {nowMs : Int}
    (h : updateRunState db runId nowMs = .ok db') : Evolves R db db' := by
  obtain ⟨runs, rfl, _⟩ := updateRunState_ok h
  exact Evolves.of_runs

/-- Late evidence is quarantined in the ledger it names. -/
theorem quarantine_evolves {attempt : EvaluationAttempt} {now : Datetime}
    (hallowed : UpdateAllowed db (quarantineTarget attempt) (quarantine db attempt now)
      (quarantine_attemptId db attempt now)) :
    Evolves Ledger.Quiet db (quarantinedDb db attempt now) := by
  have hjobs : db.jobs = db.jobs.update (fun _ => false) id (fun _ => rfl) :=
    (Table.update_eq_self fun _ _ => rfl).symm
  have hevolves : Evolves Ledger.Quiet db { db with
      jobs := db.jobs.update (fun _ => false) id (fun _ => rfl)
      evaluationAttempts := db.evaluationAttempts.update (quarantineTarget attempt)
        (quarantine db attempt now) (quarantine_attemptId db attempt now) } := by
    refine Evolves.of_rewrite (fun _ => rfl) (quarantine_attemptId db attempt now)
      (fun row => (quarantine_sameIdentity db attempt now row).jobId) ?_
    intro job _
    refine .single (.quarantine (quarantineTarget attempt) (quarantine db attempt now) ?_
      (quarantine_sameIdentity db attempt now)
      (fun row => ⟨rfl, quarantine_discarded db attempt now row⟩) ?_)
    · intro row hp
      simp only [quarantineTarget, Bool.and_eq_true] at hp
      exact hp.2
    · intro row hrow hp
      exact (hallowed.rows row (mem_attemptsOf.mp hrow).1 hp).2.1
  rwa [← hjobs] at hevolves

/-- A claim moves one pending ledger and no other. -/
theorem leasedDb_evolves {row : Job} {workerId : String} {expires : Int} {draw : Draw}
    {started : Datetime} {attempts : Table AttemptRow.attemptId}
    (hrow : db.jobs.find? row.jobId = some row) (hpending : row.state = .pending)
    (hinsert : db.evaluationAttempts.insert?
      (activeAttempt row.jobId (row.fence + 1) draw started) = some attempts) :
    Evolves Ledger.Quiet db (leasedDb db row workerId expires draw attempts) := by
  have hattempts : ∀ jobId, (leasedDb db row workerId expires draw attempts).attemptsOf jobId =
      db.attemptsOf jobId ++ (if row.jobId = jobId then
        [activeAttempt row.jobId (row.fence + 1) draw started] else []) := by
    intro jobId
    rw [Db.attemptsOf, leasedDb, Table.select_insert? hinsert]
    simp only [decide_eq_true_eq]
    rfl
  have hjobs : ∀ jobId, (leasedDb db row workerId expires draw attempts).jobs.find? jobId =
      (db.jobs.find? jobId).map fun job =>
        if job.jobId = row.jobId ∧ job.state = .pending
        then leasedRow row workerId expires draw job else job := by
    intro jobId
    rw [leasedDb, updateJobs_jobs, Table.find?_update]
    simp only [Bool.and_eq_true, decide_eq_true_eq]
  refine ⟨?_, ?_, ?_, rfl, rfl⟩
  · intro jobId l hl
    obtain ⟨hfind, hrows⟩ := ledger_eq_some_iff.mp hl
    refine ⟨⟨if l.job.jobId = row.jobId ∧ l.job.state = .pending
        then leasedRow row workerId expires draw l.job else l.job,
      (leasedDb db row workerId expires draw attempts).attemptsOf jobId⟩,
      ledger_eq_some_iff.mpr ⟨by rw [hjobs, hfind]; rfl, rfl⟩, ?_⟩
    -- The ledger of the leased job takes a grant; no other one is touched.
    by_cases hid : row.jobId = jobId
    · subst hid
      obtain rfl : row = l.job := Option.some.inj (hrow.symm.trans hfind)
      rw [if_pos ⟨rfl, hpending⟩, hattempts, if_pos rfl, ← hrows]
      refine .single (.grant workerId expires draw started hpending ?_)
      intro old hold
      rw [hrows] at hold
      exact Table.find?_eq_none_iff.mp (Table.insert?_eq_some_iff.mp hinsert).1 old
        (mem_attemptsOf.mp hold).1
    · have hne : l.job.jobId ≠ row.jobId := by
        rw [Table.key_of_find? hfind]
        exact fun heq => hid heq.symm
      rw [if_neg (fun h => hne h.1), hattempts, if_neg hid, List.append_nil, ← hrows]
  · intro jobId l' hl'
    obtain ⟨hfind, _⟩ := ledger_eq_some_iff.mp hl'
    rw [hjobs, Option.map_eq_some_iff] at hfind
    obtain ⟨job, hfound, _⟩ := hfind
    exact ⟨_, ledger_of_find? hfound⟩
  · intro howned attempt hattempt
    rw [hjobs, Option.isSome_map]
    rcases (Table.mem_insert? hinsert).mp hattempt with hold | rfl
    · exact howned attempt hold
    · exact Option.isSome_of_eq_some hrow

/-- Reaping a held job releases its ledger; the attempt it abandons is its own. -/
theorem reapedDb_evolves (hinv : QueueInv db) {row : Job} {outcome : JobState × Option String}
    {now : Datetime} (hrow : db.jobs.find? row.jobId = some row) (hheld : row.state.isHeld = true)
    (houtcome : outcome.1 = .pending ∨ outcome.1 = .failed) :
    Evolves Ledger.Quiet db (reapedDb db row outcome now) := by
  have hledger := hinv.ledgers row.jobId _ (ledger_of_find? hrow)
  obtain ⟨_, _, _, current, hcurrent, hid, _, _⟩ := hledger.held hheld
  have hown : current.jobId = row.jobId := hledger.numbered.own current hcurrent
  refine Evolves.of_rewrite (releasedRow_jobId outcome) (abandonedRow_attemptId now)
    (fun attempt => (abandonedRow_sameIdentity now attempt).jobId) ?_
  intro job hjob
  by_cases hsame : job.jobId = row.jobId
  · obtain rfl : job = row := Table.eq_of_key_eq hjob (Table.mem_of_find? hrow) hsame
    have hcondition : rewriteRows (abandonTarget job) (abandonedRow now) (db.attemptsOf job.jobId) =
        rewriteRows (fun r => job.attemptId = some r.attemptId && r.disposition = .active)
          (abandonedRow now) (db.attemptsOf job.jobId) := by
      apply List.map_congr_left
      intro attempt hattempt
      simp [abandonTarget, hledger.numbered.ids_ne attempt hattempt]
    rw [if_pos (decide_eq_true rfl), hcondition]
    exact .single (.reap outcome now hheld houtcome)
  · rw [if_neg (by simpa using hsame), rewriteRows_eq_self]
    · exact .refl
    · intro attempt hattempt
      obtain ⟨hmem, hjobId⟩ := mem_attemptsOf.mp hattempt
      have hne : row.attemptId ≠ some attempt.attemptId := by
        intro heq
        have hrows : current = attempt := Table.eq_of_key_eq (mem_attemptsOf.mp hcurrent).1 hmem
          (Option.some.inj (hid.symm.trans heq))
        exact hsame (by rw [← hjobId, ← hrows, hown])
      simp [abandonTarget, hne]

/-- Starting a job is a quiet transition of its own ledger and leaves every other ledger. -/
theorem runningDb_evolves {row job : Job} (hrow : db.jobs.find? job.jobId = some row) :
    Evolves Ledger.Quiet db (runningDb db row job) := by
  unfold runningDb
  split
  next hclaimed =>
    apply Evolves.of_jobs
    intro other hother hp
    obtain rfl : other = row :=
      Table.eq_of_key_eq hother (Table.mem_of_find? hrow) (by
        rw [Table.key_of_find? hrow]
        simpa using hp)
    exact .single (.start hclaimed)
  · exact .refl _ db

/-- So is the renewal of a lease. -/
theorem extendedDb_evolves {row job : Job} {expires : Int}
    (hrow : db.jobs.find? job.jobId = some row) (hheld : row.state.isHeld = true) :
    Evolves Ledger.Quiet db (extendedDb db job expires) := by
  apply Evolves.of_jobs
  intro other hother hp
  obtain rfl : other = row :=
    Table.eq_of_key_eq hother (Table.mem_of_find? hrow) (by
      rw [Table.key_of_find? hrow]
      simpa using hp)
  exact .single (.extend expires hheld)

/-- Only a held job has a lease that can be live. -/
theorem QueueInv.held_of_live (hinv : QueueInv db) {jobId : String} {row : Job} {nowMs : Int}
    (hrow : db.jobs.find? jobId = some row) (hlive : leaseExpired row nowMs = false) :
    row.state.isHeld = true := by
  cases hheld : row.state.isHeld with
  | true => rfl
  | false =>
      have hexpires := ((hinv.ledgers _ _ (ledger_of_find? hrow)).released hheld).2.2
      simp only [Db.ledgerOf] at hexpires
      simp [leaseExpired, hexpires] at hlive

/-- A commit goes through on a held job only. -/
theorem CommitGuard.held (hinv : QueueInv db) {job row : Job} {attempt : EvaluationAttempt}
    {nowMs : Int} {stored : AttemptRow} (h : CommitGuard db job attempt nowMs row stored) :
    row.state.isHeld = true :=
  hinv.held_of_live h.row_eq h.live

/-- A commit moves one ledger by selecting its current attempt. -/
theorem committedDb_evolves (hinv : QueueInv db) {job row : Job} {attempt : EvaluationAttempt}
    {nowMs : Int} {stored : AttemptRow} {finishedAt : Datetime}
    (hguard : CommitGuard db job attempt nowMs row stored)
    (hchecks : ∀ row ∈ db.evaluationAttempts, row.attemptId = attempt.attemptId →
      (committedRow attempt finishedAt row).Check) :
    Evolves (Ledger.Commit attempt) db (committedDb db job attempt finishedAt) := by
  refine Evolves.of_rewrite (finishedRow_jobId attempt) (committedRow_attemptId attempt finishedAt)
    (fun row => (committedRow_sameIdentity attempt finishedAt row).jobId) ?_
  intro other hother
  by_cases hsame : other.jobId = job.jobId
  · obtain rfl : other = row :=
      Table.eq_of_key_eq hother (Table.mem_of_find? hguard.row_eq)
        (hsame.trans (Table.key_of_find? hguard.row_eq).symm)
    rw [if_pos (decide_eq_true hsame)]
    refine .single (.commit finishedAt (hguard.held hinv) hguard.current ?_)
    intro stored' hstored hid
    exact hchecks stored' (mem_attemptsOf.mp hstored).1 hid
  · rw [if_neg (by simpa using hsame), rewriteRows_eq_self]
    · exact .refl
    · intro attemptRow hattempt
      obtain ⟨hmem, hjobId⟩ := mem_attemptsOf.mp hattempt
      rw [decide_eq_false_iff_not]
      intro hid
      have hstored : stored = attemptRow :=
        Table.eq_of_key_eq (Table.mem_of_find? hguard.stored_eq) hmem
          ((Table.key_of_find? hguard.stored_eq).trans hid.symm)
      exact hsame (by rw [← hjobId, ← hstored, hguard.stored_job])

end Statements

/-! ## Operations as evolutions -/

section Operations

variable {db db' : Db} {nowMs : Int}

theorem grant_evolves {row job : Job} {workerId : String} {leaseDurationMs : Int} {draw : Draw}
    (hrow : db.jobs.find? row.jobId = some row) (hpending : row.state = .pending)
    (h : grant db row workerId nowMs leaseDurationMs draw = .ok (job, db')) :
    Evolves Ledger.Quiet db db' := by
  obtain ⟨_, started, attempts, hinsert, hrun⟩ := grant_ok h
  exact (leasedDb_evolves hrow hpending hinsert).trans (updateRunState_evolves hrun)

/-- By induction on the fuel; the loop sweeps runs and ends with one grant at most. -/
theorem claimLoop_evolves {workerId : String} {runId : Option String} {leaseDurationMs : Int}
    {draw : Draw} {fuel : Nat} {result : Option Job}
    (h : claimLoop workerId nowMs runId leaseDurationMs draw fuel db = .ok (result, db')) :
    Evolves Ledger.Quiet db db' := by
  induction fuel generalizing db with
  | zero => cases h
  | succ fuel ih =>
      rcases claimLoop_ok h with ⟨_, _, rfl⟩ | ⟨row, swept, _, _, hswept, hrest⟩ |
        ⟨row, job, hnext, _, _, hgrant⟩
      · exact .refl _ db'
      · exact ((failPending_evolves db row.runId).trans (updateRunState_evolves hswept)).trans
          (ih hrest)
      · obtain ⟨hrow, hpending, _⟩ := nextPending_some hnext
        exact grant_evolves hrow hpending hgrant

theorem claim_evolves (db : Db) (workerId : String) (nowMs : Int) (runId : Option String)
    (leaseDurationMs : Int) (draw : Draw) :
    Evolves Ledger.Quiet db (claim db workerId nowMs runId leaseDurationMs draw).2 := by
  rcases claim_cases db workerId nowMs runId leaseDurationMs draw with
    ⟨result, db', hloop, hclaim⟩ | ⟨exc, hclaim⟩
  · rw [hclaim]
    exact claimLoop_evolves hloop
  · rw [hclaim]
    exact .refl _ db

theorem markRunning_evolves (db : Db) (job : Job) (nowMs : Int) :
    Evolves Ledger.Quiet db (markRunning db job nowMs).2 := by
  rcases markRunning_cases db job nowMs with ⟨row, hrow, _, heq⟩ | ⟨exc, _, heq⟩
  · rw [heq]
    exact runningDb_evolves hrow
  · rw [heq]
    exact .refl _ db

theorem heartbeat_evolves (db : Db) (job : Job) (nowMs extensionMs : Int) :
    Evolves Ledger.Quiet db (heartbeat db job nowMs extensionMs).2 := by
  rcases heartbeat_cases db job nowMs extensionMs with
    ⟨row, hrow, hlive, heq⟩ | ⟨row, hrow, hlive, heq⟩ | ⟨exc, _, heq⟩
  · rw [heq]
    exact extendedDb_evolves hrow hlive.held
  · rw [heq]
    exact .refl _ db
  · rw [heq]
    exact .refl _ db

/-- A completion either selects the attempt it was given, or selects nothing. -/
theorem complete_evolves (hinv : QueueInv db) (job : Job) (attempt : EvaluationAttempt)
    (nowMs : Int) :
    Evolves Ledger.Quiet db (complete db job attempt nowMs).2 ∨
      (commits db job attempt nowMs = true ∧
        Evolves (Ledger.Commit attempt) db (complete db job attempt nowMs).2) := by
  rcases complete_spec db job attempt nowMs with
    ⟨_, now, hnow, heq⟩ | ⟨hcommits, finishedAt, db', hcommittable, hrun, heq⟩ |
    ⟨result, heq, _⟩
  · rw [heq]
    exact Or.inl (quarantine_evolves hnow.allowed)
  · rw [heq]
    obtain ⟨row, stored, hguard⟩ := commits_iff.mp hcommits
    have hcommitted := committedDb_evolves hinv hguard fun attemptRow hmem hid =>
      (hcommittable.allowed.rows attemptRow hmem (decide_eq_true hid)).2.1
    exact Or.inr ⟨hcommits, hcommitted.trans (updateRunState_evolves hrun)⟩
  · rw [heq]
    exact Or.inl (.refl _ db)

/-- Releasing one job leaves the rows of the others in place. -/
theorem reapedDb_find?_of_ne {row other : Job} {outcome : JobState × Option String}
    {now : Datetime} (hne : other.jobId ≠ row.jobId)
    (hother : db.jobs.find? other.jobId = some other) :
    (reapedDb db row outcome now).jobs.find? other.jobId = some other := by
  rw [reapedDb, updateJobs_jobs, Table.find?_update, hother]
  simp [hne]

/-- The loop of a reap rewrites each of its jobs once, so each row is as it was read when its
turn comes. -/
theorem reapRows_evolves {rows : List Job} {maxAttempts : Option Int} {now : Datetime}
    (hinv : QueueInv db) (hnodup : (rows.map Job.jobId).Nodup)
    (hrows : ∀ row ∈ rows, db.jobs.find? row.jobId = some row ∧ row.state.isHeld = true)
    (h : rows.foldlM (reapRow maxAttempts now) db = .ok db') : Evolves Ledger.Quiet db db' := by
  induction rows generalizing db with
  | nil =>
      cases h
      exact .refl _ _
  | cons row rest ih =>
      rw [List.foldlM_cons, bind_eq_ok] at h
      obtain ⟨middle, hfirst, hrest⟩ := h
      obtain ⟨outcome, houtcome, rfl⟩ := reapRow_ok hfirst
      obtain ⟨hrow, hheld⟩ := hrows row List.mem_cons_self
      rw [List.map_cons, List.nodup_cons] at hnodup
      have hhead : Evolves Ledger.Quiet db (reapedDb db row outcome now) :=
        reapedDb_evolves hinv hrow hheld houtcome
      refine hhead.trans (ih (hhead.step.queueInv hinv) hnodup.2 ?_ hrest)
      intro other hother
      obtain ⟨hfound, hotherHeld⟩ := hrows other (List.mem_cons_of_mem row hother)
      refine ⟨reapedDb_find?_of_ne ?_ hfound, hotherHeld⟩
      intro heq
      exact hnodup.1 (heq ▸ List.mem_map_of_mem hother)

/-- What a reap reads first are held jobs with distinct ids; the runs are settled behind
them. -/
theorem reapExpired_evolves (hinv : QueueInv db) (nowMs : Int) (maxAttempts : Option Int) :
    Evolves Ledger.Quiet db (reapExpired db nowMs maxAttempts).2 := by
  rcases reapExpired_cases db nowMs maxAttempts with
    ⟨now, released, db', hreleased, hclosed, heq⟩ | ⟨exc, heq⟩
  · rw [heq]
    have hrows : ∀ row ∈ expiredRows db nowMs,
        db.jobs.find? row.jobId = some row ∧ row.state.isHeld = true := by
      intro row hrow
      obtain ⟨hmem, hheld, _, _⟩ := mem_expiredRows.mp hrow
      exact ⟨Table.find?_of_mem hmem, hheld⟩
    exact (reapRows_evolves hinv (expiredRows_nodup db nowMs) hrows hreleased).trans
      (Evolves.foldlM (fun _ _ _ _ h => updateRunState_evolves h) hclosed)
  · rw [heq]
    exact .refl _ db

theorem requestCancel_evolves (db : Db) (runId : String) (nowMs : Int) :
    Evolves Ledger.Quiet db (requestCancel db runId nowMs).2 := by
  rcases requestCancel_cases db runId nowMs with ⟨db', hclosed, heq⟩ | ⟨exc, heq⟩
  · rw [heq]
    exact (Evolves.of_runs.trans (failPending_evolves _ runId)).trans
      (updateRunState_evolves hclosed)
  · rw [heq]
    exact .refl _ db

end Operations

end VerifierCI
