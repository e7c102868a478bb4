import VerifierCI.Execution.Operations

/-! # Is stale final?

An attempt is condemned once its row has been recorded as stale, or once its
worker has declared it stale on submission. The commit of a completion looks at
neither, so a condemned attempt becomes authoritative whenever its lease is
still live; these are the only runs in which it does.
-/

namespace VerifierCI

open Python Relational Transition

def Operation.declaredStale : Operation → List String
  | .complete _ attempt _ => if attempt.disposition = .stale then [attempt.attemptId] else []
  | _ => []

def Db.staleIds (db : Db) : List String :=
  (db.evaluationAttempts.select fun row => row.disposition = .stale).map AttemptRow.attemptId

/-- The queue together with every attempt condemned so far. -/
structure Watch where
  db : Db
  condemned : List String

namespace Watch

def start (db : Db) : Watch where
  db := db
  condemned := db.staleIds

/-- A declaration condemns the attempt of the very call that makes it. -/
def condemnedAt (s : Watch) (op : Operation) : List String :=
  op.declaredStale ++ s.condemned

def call (s : Watch) (op : Operation) : Watch where
  db := s.db.call op
  condemned := (s.db.call op).staleIds ++ s.condemnedAt op

/-- The call commits no condemned attempt and makes none authoritative. -/
structure StaleFinal (s : Watch) (op : Operation) : Prop where
  not_committed : ∀ job attempt nowMs, op = .complete job attempt nowMs →
    attempt.attemptId ∈ s.condemnedAt op → (complete s.db job attempt nowMs).1 ≠ .ok .committed
  not_authoritative : ∀ row ∈ (s.db.call op).evaluationAttempts,
    row.attemptId ∈ s.condemnedAt op → row.disposition = .authoritative →
      row ∈ s.db.evaluationAttempts

/-- No condemned attempt is submitted, with evidence that can be committed,
under its live lease: right fence, token, worker and attempt, before the deadline. -/
def Cautious (s : Watch) : Operation → Prop
  | .complete job attempt nowMs =>
      attempt.attemptId ∈ s.condemnedAt (.complete job attempt nowMs) →
        commits s.db job attempt nowMs = true →
          ∀ finishedAt, ¬ Committable s.db job attempt nowMs finishedAt
  | _ => True

theorem StaleFinal.cautious {s : Watch} {op : Operation} (h : s.StaleFinal op) : s.Cautious op := by
  cases op with
  | complete job attempt nowMs =>
      intro hcondemned hcommits finishedAt hcommittable
      exact h.not_committed job attempt nowMs rfl hcondemned
        (complete_committed_iff.mpr ⟨hcommits, finishedAt, hcommittable⟩)
  | _ => exact trivial

theorem Cautious.staleFinal {s : Watch} (hinv : QueueInv s.db) {op : Operation}
    (h : s.Cautious op) : s.StaleFinal op := by
  have hrefused : ∀ job attempt nowMs, op = .complete job attempt nowMs →
      attempt.attemptId ∈ s.condemnedAt op →
      (complete s.db job attempt nowMs).1 ≠ .ok .committed := by
    rintro job attempt nowMs rfl hcondemned hcommitted
    obtain ⟨hcommits, finishedAt, hcommittable⟩ := complete_committed_iff.mp hcommitted
    exact h hcondemned hcommits finishedAt hcommittable
  refine ⟨hrefused, ?_⟩
  intro row hrow hcondemned hauth
  rcases authoritative_old hinv hrow hauth with hold | ⟨job, attempt, nowMs, hop, hid, hcommitted⟩
  · exact hold
  · exact absurd hcommitted (hrefused job attempt nowMs hop (hid ▸ hcondemned))

/-- In a run from an unclaimed queue stale stays final exactly as long as no
condemned attempt is submitted under its live lease. -/
theorem run_staleFinal_iff {db : Db} (hfresh : db.Fresh) (ops : List Operation) :
    Admits call StaleFinal (start db) ops ↔ Admits call Cautious (start db) ops :=
  Admits.congr (fun s => QueueInv s.db) (fun _ op hinv => call_queueInv hinv op)
    (fun _ _ hinv => ⟨StaleFinal.cautious, Cautious.staleFinal hinv⟩) (QueueInv.of_fresh hfresh) ops

/-- The lease lapses and the job is claimed again; nobody submits anything. -/
theorem run_staleFinal_iff_solo :
    Admits call StaleFinal (start soloDb) soloRetry ↔
      Admits call Cautious (start soloDb) soloRetry :=
  run_staleFinal_iff soloDb_fresh soloRetry

/-- A mismatched completion records the attempt as stale; the next one, under
the same live lease, commits it. -/
def mismatchThenCommit : List Operation :=
  [soloClaim,
    .complete { soloHandle with fence := 999 } (acceptingAttempt "attempt" "job" 1) 1000,
    .complete soloHandle (acceptingAttempt "attempt" "job" 1) 2000]

/-- An attempt that was recorded as stale is committed, and so is one whose
worker declares it stale. -/
theorem stale_not_final :
    ¬ Admits call StaleFinal (start soloDb) mismatchThenCommit ∧
      ¬ Admits call StaleFinal (start soloDb)
        [soloClaim, .complete soloHandle
          { acceptingAttempt "attempt" "job" 1 with disposition := .stale } 1000] := by
  constructor
  · rintro ⟨_, _, hfinal, _⟩
    exact hfinal.not_committed soloHandle (acceptingAttempt "attempt" "job" 1) 2000 rfl
      (by decide) (by rfl)
  · rintro ⟨_, hfinal, _⟩
    exact hfinal.not_committed soloHandle
      { acceptingAttempt "attempt" "job" 1 with disposition := .stale } 1000 rfl
      (by decide) (by rfl)

end Watch

end VerifierCI
