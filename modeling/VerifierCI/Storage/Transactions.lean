import VerifierCI.Errors
import VerifierCI.Python.Text
import VerifierCI.Transition.Script
import VerifierCI.Transition.Threads

/-! # Transactions of several connections

`transaction` retries its `BEGIN IMMEDIATE` while the database is locked and its
time is not up, runs the block, and commits or rolls back. A connection inside a
transaction holds the write lock and works on a view no other connection sees.
Statements of different connections are taken in any order, SQLite may refuse
any of them, and a process may be killed.
-/

namespace VerifierCI

open Python Transition

universe uState uCall uConnection

/-! ## Connections -/

/-- What SQLite reports instead of taking a step. -/
structure Refusal where
  message : String
  /-- It has rolled the transaction back itself. -/
  rolledBack : Bool

/-- The database file: what every connection reads outside of transactions, and its write
lock. -/
structure DbFile (σ : Type uState) where
  committed : σ
  locked : Bool

/-- Where a connection stands. One that could not roll back is still in its transaction when the
call returns. -/
inductive DbClient (σ : Type uState) (κ : Type uCall) (α : Type uState) where
  | idle
  /-- In the loop around `BEGIN IMMEDIATE`. -/
  | beginning (call : κ) (inTransaction : Bool)
  | inBlock (call : κ) (view : σ) (rest : Script σ Exc α)
  /-- In the handler of a statement that was refused. -/
  | unwinding (call : κ) (inTransaction : Bool)
  | returned (call : κ) (result : Except Exc α) (inTransaction : Bool)
  | killed

/-- What a connection does next. -/
inductive DbAction (κ : Type uCall) where
  | call (call : κ)
  /-- `late` says that the time for the lock is up. -/
  | proceed (late : Bool) (refusal : Option Refusal)
  | kill

variable {σ : Type uState} {κ : Type uCall} {α : Type uState}

/-- `conn.in_transaction`. -/
def DbClient.inTransaction : DbClient σ κ α → Bool
  | .beginning _ inTransaction => inTransaction
  | .inBlock _ _ _ => true
  | .unwinding _ inTransaction => inTransaction
  | .returned _ _ inTransaction => inTransaction
  | _ => false

/-- What the caller is told once its call is over. -/
def DbClient.told? : DbClient σ κ α → Option (κ × Except Exc α)
  | .returned call result _ => some (call, result)
  | _ => none

def DbClient.isInBlock : DbClient σ κ α → Bool
  | .inBlock _ _ _ => true
  | _ => false

def DbFile.unlock (file : DbFile σ) : DbFile σ :=
  { file with locked := false }

/-- `"locked" in msg or "busy" in msg`. -/
def mentionsLock (message : String) : Bool :=
  let msg := lower message.toList
  contains "locked".toList msg || contains "busy".toList msg

def lockFailure (message : String) : Exc :=
  .verifierCI .infrastructureError
    ("Failed to acquire transaction lock (BEGIN IMMEDIATE): " ++ message) .databaseError

/-- Why `BEGIN IMMEDIATE` fails, if it does. -/
def beginError? (file : DbFile σ) (inTransaction : Bool) (refusal : Option Refusal) :
    Option String :=
  if inTransaction then some "cannot start a transaction within a transaction"
  else
    match refusal with
    | some refusal => some refusal.message
    | none => if file.locked then some "database is locked" else none

section Steps

variable (script : κ → σ → Script σ Exc α)

/-- One attempt of the loop. -/
def DbClient.begin (call : κ) (inTransaction late : Bool) (refusal : Option Refusal)
    (file : DbFile σ) : DbFile σ × DbClient σ κ α :=
  match beginError? file inTransaction refusal with
  | some message =>
      -- it sleeps and tries again
      if mentionsLock message && !late then (file, .beginning call inTransaction)
      else (file, .returned call (.error (lockFailure message)) inTransaction)
  | none =>
      ({ file with locked := true }, .inBlock call file.committed (script call file.committed))

/-- `ROLLBACK`, whose failure is ignored. -/
def DbClient.rollback (call : κ) (exc : Exc) (refusal : Option Refusal) (file : DbFile σ) :
    DbFile σ × DbClient σ κ α :=
  match refusal with
  | none => (file.unlock, .returned call (.error exc) false)
  | some refusal =>
      if refusal.rolledBack then (file.unlock, .returned call (.error exc) false)
      else (file, .returned call (.error exc) true)

/-- The next statement of the block, or the end of the block. -/
def DbClient.advance (call : κ) (view : σ) (file : DbFile σ) :
    Script σ Exc α → DbFile σ × DbClient σ κ α
  | .done value => (⟨view, false⟩, .returned call (.ok value) false)
  | .raise exc => DbClient.rollback call exc none file
  | .statement effect next =>
      match effect view with
      | .error exc => (file, .inBlock call view (.raise exc))
      | .ok after => (file, .inBlock call after (next view after))

/-- A statement of the block, or its `COMMIT`, is refused. -/
def DbClient.refused (call : κ) (refusal : Refusal) (file : DbFile σ) :
    DbFile σ × DbClient σ κ α :=
  if refusal.rolledBack then (file.unlock, .unwinding call false) else (file, .unwinding call true)

/-- The next operation of a connection. -/
def DbClient.proceed (late : Bool) (refusal : Option Refusal) (file : DbFile σ) :
    DbClient σ κ α → DbFile σ × DbClient σ κ α
  | .beginning call inTransaction => DbClient.begin script call inTransaction late refusal file
  | .inBlock call view rest =>
      match rest, refusal with
      -- the block has raised, and `ROLLBACK` comes next
      | .raise exc, refusal => DbClient.rollback call exc refusal file
      | rest, none => DbClient.advance call view file rest
      | _, some refusal => DbClient.refused call refusal file
  | .unwinding call true => DbClient.rollback call .operationalError refusal file
  | .unwinding call false => (file, .returned call (.error .operationalError) false)
  | client => (file, client)

def DbClient.start (call : κ) (file : DbFile σ) : DbClient σ κ α → DbFile σ × DbClient σ κ α
  | .idle => (file, .beginning call false)
  | .returned _ _ inTransaction => (file, .beginning call inTransaction)
  | client => (file, client)

/-- One action of a connection. The transaction of a killed one is gone. -/
def DbClient.act (action : DbAction κ) (file : DbFile σ) (client : DbClient σ κ α) :
    DbFile σ × DbClient σ κ α :=
  match action with
  | .call call => client.start call file
  | .proceed late refusal => client.proceed script late refusal file
  | .kill => (if client.inTransaction then file.unlock else file, .killed)

/-- The call a step answers, with what its block has come to. -/
def DbClient.answer? (action : DbAction κ) (client : DbClient σ κ α) :
    Option (κ × Except Exc α) :=
  match client with
  | .inBlock call _ rest =>
      match rest, action with
      | .done value, .proceed _ none => some (call, .ok value)
      | .raise exc, .proceed _ _ => some (call, .error exc)
      | _, _ => none
  | _ => none

/-! ## What a step can do -/

/-- The caller is told of a refusal, and not what its block came to. -/
def Refused (result : Except Exc α) : Prop :=
  result = .error .operationalError ∨ ∃ message, result = .error (lockFailure message)

/-- The connection before a step, the file and the connection behind it, and the call it
answers. -/
inductive DbClient.Moves (file : DbFile σ) :
    DbClient σ κ α → DbFile σ × DbClient σ κ α → Option (κ × Except Exc α) → Prop
  /-- Outside of the block, with the transaction as it was. -/
  | waits {client client' : DbClient σ κ α} (hheld : client'.inTransaction = client.inTransaction)
      (hblock : client'.isInBlock = false)
      (htold : ∀ call result, client'.told? = some (call, result) →
        client.told? = some (call, result) ∨ Refused result) :
      Moves file client (file, client') none
  /-- The transaction is gone without a trace. -/
  | gives {client client' : DbClient σ κ α} (hheld : client.inTransaction = true)
      (hleft : client'.inTransaction = false)
      (htold : ∀ call result, client'.told? = some (call, result) → Refused result) :
      Moves file client (file.unlock, client') none
  | begins {client : DbClient σ κ α} (call : κ) (hunlocked : file.locked = false)
      (houtside : client.inTransaction = false) :
      Moves file client ({ file with locked := true },
        .inBlock call file.committed (script call file.committed)) none
  | works (call : κ) {view view' : σ} {rest rest' : Script σ Exc α}
      (hrun : rest'.run view' = rest.run view) :
      Moves file (.inBlock call view rest) (file, .inBlock call view' rest') none
  | commits (call : κ) (view : σ) (value : α) :
      Moves file (.inBlock call view (.done value))
        (⟨view, false⟩, .returned call (.ok value) false) (some (call, .ok value))
  | raises (call : κ) (view : σ) (exc : Exc) :
      Moves file (.inBlock call view (.raise exc))
        (file.unlock, .returned call (.error exc) false) (some (call, .error exc))
  /-- The transaction of a block that raised cannot be rolled back. -/
  | sticks (call : κ) (view : σ) (exc : Exc) :
      Moves file (.inBlock call view (.raise exc)) (file, .returned call (.error exc) true)
        (some (call, .error exc))

variable {script} {file : DbFile σ}

theorem DbClient.Moves.quiet {client client' : DbClient σ κ α}
    (hheld : client'.inTransaction = client.inTransaction) (hblock : client'.isInBlock = false)
    (htold : client'.told? = none) : Moves script file client (file, client') none := by
  apply waits hheld hblock
  intro call result h
  rw [htold] at h
  cases h

theorem DbClient.Moves.gives_up {client : DbClient σ κ α} {call : κ} {exc : Exc} {left : Bool}
    (hheld : left = client.inTransaction) (hrefused : Refused (.error exc : Except Exc α)) :
    Moves script file client (file, .returned call (.error exc) left) none := by
  refine waits ?_ rfl ?_
  · exact hheld
  intro made result h
  obtain ⟨rfl, rfl⟩ := Prod.mk.inj (Option.some.inj h)
  exact Or.inr hrefused

/-- An attempt to begin gets the lock or is refused, and a refusal leaves the file as it was. -/
theorem DbClient.begin_moves (call : κ) (inTransaction late : Bool) (refusal : Option Refusal) :
    Moves script file (.beginning call inTransaction)
      (DbClient.begin script call inTransaction late refusal file) none := by
  unfold DbClient.begin
  cases hbegin : beginError? file inTransaction refusal with
  | some message =>
      dsimp only
      split
      · exact .quiet rfl rfl rfl
      · exact .gives_up rfl (Or.inr ⟨message, rfl⟩)
  | none =>
      unfold beginError? at hbegin
      cases inTransaction with
      | true => simp at hbegin
      | false =>
          cases refusal with
          | some refusal => simp at hbegin
          | none => exact .begins call (by simpa using hbegin) rfl

theorem DbClient.refused_moves (call : κ) (view : σ) (rest : Script σ Exc α) (refusal : Refusal) :
    Moves script file (.inBlock call view rest)
      (DbClient.refused call refusal file) none := by
  unfold DbClient.refused
  split
  · exact .gives rfl rfl fun _ _ h => by cases h
  · exact .quiet rfl rfl rfl

/-- Rolling back gives up the lock and the statements made so far. -/
theorem DbClient.rollback_moves (call : κ) (refusal : Option Refusal) :
    Moves script file (.unwinding call true)
      (DbClient.rollback call .operationalError refusal file) none := by
  have htold : ∀ made (result : Except Exc α),
      (DbClient.returned call (.error .operationalError) false : DbClient σ κ α).told? =
        some (made, result) → Refused result := by
    intro made result h
    obtain ⟨rfl, rfl⟩ := Prod.mk.inj (Option.some.inj h)
    exact Or.inl rfl
  unfold DbClient.rollback
  cases refusal with
  | none => exact .gives rfl rfl htold
  | some refusal =>
      dsimp only
      split
      · exact .gives rfl rfl htold
      · exact .gives_up rfl (Or.inl rfl)

theorem DbClient.raise_moves (call : κ) (view : σ) (exc : Exc) (refusal : Option Refusal) :
    Moves script file (.inBlock call view (.raise exc))
      (DbClient.rollback call exc refusal file)
      (some (call, .error exc)) := by
  unfold DbClient.rollback
  cases refusal with
  | none => exact .raises call view exc
  | some refusal =>
      dsimp only
      split
      · exact .raises call view exc
      · exact .sticks call view exc

/-- A statement works on the view of its own transaction, and an error in it unwinds the
block. -/
theorem DbClient.statement_moves (call : κ) (view : σ) (effect : σ → Except Exc σ)
    (next : σ → σ → Script σ Exc α) :
    Moves script file (.inBlock call view (.statement effect next))
      (DbClient.advance call view file (.statement effect next)) none := by
  cases heffect : effect view with
  | error exc =>
      have hrun : (Script.raise exc : Script σ Exc α).run view =
          (Script.statement effect next).run view := (Script.run_statement_error heffect).symm
      simp only [DbClient.advance, heffect]
      exact .works call hrun
  | ok after =>
      have hrun : (next view after).run after = (Script.statement effect next).run view :=
        (Script.run_statement heffect).symm
      simp only [DbClient.advance, heffect]
      exact .works call hrun

/-- One case for each place a connection can be at. What a refusal leads to depends on what the
block was about to do. -/
theorem DbClient.proceed_moves (late : Bool) (refusal : Option Refusal) (client : DbClient σ κ α) :
    Moves script file client (client.proceed script late refusal file)
      (client.answer? (.proceed late refusal)) := by
  cases client with
  | beginning call inTransaction => exact begin_moves call inTransaction late refusal
  | inBlock call view rest =>
      cases rest with
      | raise exc =>
          cases refusal with
          | none => exact raise_moves call view exc none
          | some refusal => exact raise_moves call view exc (some refusal)
      | done value =>
          cases refusal with
          | none => exact .commits call view value
          | some refusal => exact refused_moves call view (.done value) refusal
      | statement effect next =>
          cases refusal with
          | none => exact statement_moves call view effect next
          | some refusal => exact refused_moves call view (.statement effect next) refusal
  | unwinding call inTransaction =>
      cases inTransaction with
      | true => exact rollback_moves call refusal
      | false => exact .gives_up rfl (Or.inl rfl)
  | idle => exact .quiet rfl rfl rfl
  | returned call result inTransaction => exact .waits rfl rfl fun _ _ h => Or.inl h
  | killed => exact .quiet rfl rfl rfl

theorem DbClient.act_moves (action : DbAction κ) (client : DbClient σ κ α) :
    Moves script file client (client.act script action file) (client.answer? action) := by
  cases action with
  | call call =>
      cases client with
      | inBlock made view rest => cases rest <;> exact .works made rfl
      | beginning made inTransaction => exact .quiet rfl rfl rfl
      | unwinding made inTransaction => exact .quiet rfl rfl rfl
      | idle => exact .quiet rfl rfl rfl
      | returned made result inTransaction => exact .quiet rfl rfl rfl
      | killed => exact .quiet rfl rfl rfl
  | proceed late refusal => exact proceed_moves late refusal client
  | kill =>
      have hnone : client.answer? .kill = none := by
        cases client with
        | inBlock call view rest => cases rest <;> rfl
        | _ => rfl
      rw [hnone, act]
      by_cases hheld : client.inTransaction = true
      · rw [if_pos hheld]
        exact .gives hheld rfl fun _ _ h => by cases h
      · rw [if_neg hheld]
        exact .quiet (Bool.eq_false_iff.mpr hheld).symm rfl rfl

end Steps

/-! ## One call at a time -/

/-- A call, the connection that made it and what its block came to. -/
structure DbAnswer (ι : Type uConnection) (κ : Type uCall) (α : Type uState) where
  connection : ι
  call : κ
  result : Except Exc α

section Serial

variable {ι : Type uConnection} (script : κ → σ → Script σ Exc α)

def callAlone (call : κ) (state : σ) : Except Exc α × σ :=
  atomically (script call state) state

/-- What the calls of these answers leave, one behind the other. -/
def leftBy (start : σ) (answers : List (DbAnswer ι κ α)) : σ :=
  run (fun state answer => (callAlone script answer.call state).2) start answers

/-- The answers and the state are those of the calls made one at a time. -/
structure Serial (start : σ) (answers : List (DbAnswer ι κ α)) (state : σ) : Prop where
  state : state = leftBy script start answers
  results : ∀ before answer after, answers = before ++ answer :: after →
    answer.result = (callAlone script answer.call (leftBy script start before)).1

variable {script} {start state : σ} {answers : List (DbAnswer ι κ α)}

theorem callAlone_ok {call : κ} {value : α} {after : σ}
    (h : (script call state).run state = .ok (value, after)) :
    callAlone script call state = (.ok value, after) := by
  rw [callAlone, atomically, h]

theorem callAlone_error {call : κ} {exc : Exc}
    (h : (script call state).run state = .error exc) :
    callAlone script call state = (.error exc, state) := by
  rw [callAlone, atomically, h]

theorem Serial.nil : Serial script start ([] : List (DbAnswer ι κ α)) start where
  state := rfl
  results := by
    intro before answer after hsplit
    simp at hsplit

/-- One more answer. -/
theorem Serial.snoc (h : Serial script start answers state) {answer : DbAnswer ι κ α} {after : σ}
    (hcall : callAlone script answer.call state = (answer.result, after)) :
    Serial script start (answers ++ [answer]) after where
  state := by
    rw [leftBy, run_append]
    change after = (callAlone script answer.call (leftBy script start answers)).2
    rw [← h.state, hcall]
  results := by
    intro before other rest hsplit
    rcases List.eq_nil_or_concat rest with rfl | ⟨rest, last, rfl⟩
    · obtain ⟨rfl, hlast⟩ := List.append_inj' hsplit rfl
      obtain rfl : answer = other := by simpa using hlast
      rw [← h.state, hcall]
    · rw [List.concat_eq_append, ← List.cons_append, ← List.append_assoc] at hsplit
      exact h.results before other rest (List.append_inj' hsplit rfl).1

end Serial

/-! ## Any number of connections -/

/-- Any number of connections to one database file. -/
abbrev DbClients (ι : Type uConnection) (σ : Type uState) (κ : Type uCall) (α : Type uState) :=
  Threads ι (DbFile σ) (DbClient σ κ α)

def DbClients.start (ι : Type uConnection) (κ : Type uCall) (α : Type uState) (state : σ) :
    DbClients ι σ κ α where
  shared := ⟨state, false⟩
  thread _ := .idle

section System

variable {ι : Type uConnection} [DecidableEq ι] (script : κ → σ → Script σ Exc α)

def DbClients.step (clients : DbClients ι σ κ α) (event : ι × DbAction κ) : DbClients ι σ κ α :=
  Threads.step (DbClient.act script) clients event

/-- The call an event answers. Calls that SQLite refuses get no answer. -/
def DbClients.answer? (clients : DbClients ι σ κ α) (event : ι × DbAction κ) :
    Option (DbAnswer ι κ α) :=
  ((clients.thread event.1).answer? event.2).map fun answer => ⟨event.1, answer.1, answer.2⟩

/-- The lock is the connection's own. What is left of its block leads where the whole block
leads from the committed state. -/
structure DbClient.Holds (file : DbFile σ) (client : DbClient σ κ α) : Prop where
  locked : client.inTransaction = true → file.locked = true
  block : ∀ call view rest, client = .inBlock call view rest →
    rest.run view = (script call file.committed).run file.committed

/-- Only one of them is in a transaction. -/
def DbClient.Apart (client other : DbClient σ κ α) : Prop :=
  client.inTransaction = true → other.inTransaction = true → False

variable {script} {file : DbFile σ} {client other : DbClient σ κ α}
  {after : DbFile σ × DbClient σ κ α} {answer : Option (κ × Except Exc α)}

theorem DbClient.not_inBlock (hblock : client.isInBlock = false) {call : κ} {view : σ}
    {rest : Script σ Exc α} (heq : client = .inBlock call view rest) : False := by
  rw [heq] at hblock
  cases hblock

theorem DbClient.not_inBlock_of_outside (houtside : client.inTransaction = false) {call : κ}
    {view : σ} {rest : Script σ Exc α} (heq : client = .inBlock call view rest) : False := by
  rw [heq] at houtside
  cases houtside

/-- A step keeps what its connection holds. A block works on the view it began with, one
statement at a time. -/
theorem DbClient.Moves.own (h : Moves script file client after answer)
    (hholds : client.Holds script file) : after.2.Holds script after.1 := by
  cases h with
  | waits hheld hblock _ =>
      exact ⟨fun hin => hholds.locked (hheld ▸ hin), fun _ _ _ heq => (not_inBlock hblock heq).elim⟩
  | gives hheld hleft _ =>
      refine ⟨?_, fun _ _ _ heq => (not_inBlock_of_outside hleft heq).elim⟩
      intro hin
      rw [hleft] at hin
      cases hin
  | begins call hunlocked houtside =>
      refine ⟨fun _ => rfl, ?_⟩
      intro made view rest heq
      cases heq
      rfl
  | works call hrun =>
      refine ⟨hholds.locked, ?_⟩
      intro made view rest heq
      cases heq
      rw [hrun, hholds.block _ _ _ rfl]
  | commits call view value =>
      refine ⟨?_, ?_⟩
      · intro hin
        cases hin
      · intro made view rest heq
        cases heq
  | raises call view exc =>
      refine ⟨?_, ?_⟩
      · intro hin
        cases hin
      · intro made view rest heq
        cases heq
  | sticks call view exc =>
      refine ⟨fun _ => hholds.locked rfl, ?_⟩
      intro made view rest heq
      cases heq

/-- A step disturbs no other connection. -/
theorem DbClient.Moves.others (h : Moves script file client after answer)
    (hother : other.Holds script file) (hapart : client.Apart other) :
    other.Holds script after.1 := by
  -- the lock is only given up, and the state only changed, by the connection inside
  have houtside : client.inTransaction = true → ∀ file' : DbFile σ, other.Holds script file' := by
    intro hin file'
    refine ⟨fun hother => (hapart hin hother).elim, ?_⟩
    intro call view rest heq
    exact (hapart hin (by rw [heq]; rfl)).elim
  cases h with
  | waits _ _ _ => exact hother
  | gives hheld _ _ => exact houtside hheld _
  | begins call hunlocked _ => exact ⟨fun _ => rfl, hother.block⟩
  | works call _ => exact hother
  | commits call view value => exact houtside rfl _
  | raises call view exc => exact houtside rfl _
  | sticks call view exc => exact hother

theorem DbClient.Moves.apart (h : Moves script file client after answer)
    (hother : other.Holds script file) (hapart : client.Apart other) : after.2.Apart other := by
  intro hin hotherIn
  cases h with
  | waits hheld _ _ => exact hapart (hheld ▸ hin) hotherIn
  | gives _ hleft _ =>
      rw [hleft] at hin
      cases hin
  | begins call hunlocked _ =>
      have hlocked := hother.locked hotherIn
      rw [hunlocked] at hlocked
      cases hlocked
  | works call _ => exact hapart rfl hotherIn
  | commits call view value => cases hin
  | raises call view exc => cases hin
  | sticks call view exc => exact hapart rfl hotherIn

/-- A step that answers a call takes the committed state where the call takes it alone. -/
theorem DbClient.Moves.committed (h : Moves script file client after answer)
    (hholds : client.Holds script file) :
    (answer = none ∧ after.1.committed = file.committed) ∨
      ∃ call result, answer = some (call, result) ∧
        callAlone script call file.committed = (result, after.1.committed) := by
  cases h with
  | waits _ _ _ => exact Or.inl ⟨rfl, rfl⟩
  | gives _ _ _ => exact Or.inl ⟨rfl, rfl⟩
  | begins call _ _ => exact Or.inl ⟨rfl, rfl⟩
  | works call _ => exact Or.inl ⟨rfl, rfl⟩
  | commits call view value =>
      have hrun := hholds.block _ _ _ rfl
      rw [Script.run_done] at hrun
      exact Or.inr ⟨call, .ok value, rfl, callAlone_ok hrun.symm⟩
  | raises call view exc =>
      have hrun := hholds.block _ _ _ rfl
      rw [Script.run_raise] at hrun
      exact Or.inr ⟨call, .error exc, rfl, callAlone_error hrun.symm⟩
  | sticks call view exc =>
      have hrun := hholds.block _ _ _ rfl
      rw [Script.run_raise] at hrun
      exact Or.inr ⟨call, .error exc, rfl, callAlone_error hrun.symm⟩

/-- The caller is told the answer, or it was told before, or of a refusal. -/
theorem DbClient.Moves.told (h : Moves script file client after answer) {told : κ × Except Exc α}
    (htold : after.2.told? = some told) :
    answer = some told ∨ (answer = none ∧ (client.told? = some told ∨ Refused told.2)) := by
  cases h with
  | waits _ _ hbefore => exact Or.inr ⟨rfl, hbefore told.1 told.2 htold⟩
  | gives _ _ hrefused => exact Or.inr ⟨rfl, Or.inr (hrefused told.1 told.2 htold)⟩
  | begins call _ _ => cases htold
  | works call _ => cases htold
  | commits call view value => exact Or.inl htold
  | raises call view exc => exact Or.inl htold
  | sticks call view exc => exact Or.inl htold

def lastAnswer? (i : ι) (answers : List (DbAnswer ι κ α)) : Option (DbAnswer ι κ α) :=
  (answers.filter fun answer => answer.connection = i).getLast?

theorem lastAnswer?_snoc (answers : List (DbAnswer ι κ α)) (answer : DbAnswer ι κ α) :
    lastAnswer? answer.connection (answers ++ [answer]) = some answer := by
  simp [lastAnswer?]

theorem lastAnswer?_snoc_of_ne {i : ι} (answers : List (DbAnswer ι κ α)) (answer : DbAnswer ι κ α)
    (hne : answer.connection ≠ i) :
    lastAnswer? i (answers ++ [answer]) = lastAnswer? i answers := by
  simp [lastAnswer?, hne]

/-- The calls that are answered are made one at a time. A call that is over was answered with
what its caller is told, or refused. -/
structure DbClients.Serialized (script : κ → σ → Script σ Exc α) (start : σ)
    (answers : List (DbAnswer ι κ α)) (clients : DbClients ι σ κ α) : Prop where
  serial : Serial script start answers clients.shared.committed
  told : ∀ i call result, (clients.thread i).told? = some (call, result) →
    lastAnswer? i answers = some ⟨i, call, result⟩ ∨ Refused result

/-- What holds of the connections once these calls are answered. -/
structure DbClients.Inv (script : κ → σ → Script σ Exc α) (start : σ)
    (answers : List (DbAnswer ι κ α)) (clients : DbClients ι σ κ α) : Prop where
  serialized : clients.Serialized script start answers
  stands : clients.Stands (fun _ => True) (DbClient.Holds script) DbClient.Apart

variable {start : σ} {answers : List (DbAnswer ι κ α)} {clients : DbClients ι σ κ α}

theorem DbClient.holds_idle : (.idle : DbClient σ κ α).Holds script file where
  locked hin := by cases hin
  block call view rest heq := by cases heq

theorem DbClients.inv_start : (DbClients.start ι κ α start).Inv script start [] where
  serialized := ⟨.nil, fun _ _ _ h => by cases h⟩
  stands := ⟨trivial, fun _ => DbClient.holds_idle, fun _ _ _ hin => by cases hin⟩

theorem DbClients.Serialized.step (h : clients.Serialized script start answers)
    {event : ι × DbAction κ}
    (hholds : (clients.thread event.1).Holds script clients.shared) :
    (clients.step script event).Serialized script start
      (answers ++ (clients.answer? event).toList) := by
  obtain ⟨i, action⟩ := event
  have hmoves : DbClient.Moves script clients.shared (clients.thread i)
      ((clients.thread i).act script action clients.shared)
      ((clients.thread i).answer? action) := DbClient.act_moves action (clients.thread i)
  constructor
  · rw [answer?, DbClients.step, Threads.step_shared]
    rcases hmoves.committed hholds with ⟨hnone, hsame⟩ | ⟨call, result, hanswer, hcall⟩
    · rw [hnone, hsame, Option.map_none, Option.toList_none, List.append_nil]
      exact h.serial
    · rw [hanswer, Option.map_some, Option.toList_some]
      exact h.serial.snoc hcall
  · intro j call result htold
    rw [answer?]
    by_cases hij : j = i
    · subst hij
      rw [DbClients.step, Threads.step_thread_self] at htold
      rcases hmoves.told htold with hanswer | ⟨hnone, hbefore | hrefused⟩
      · rw [hanswer, Option.map_some, Option.toList_some]
        exact Or.inl (lastAnswer?_snoc answers ⟨j, call, result⟩)
      · rw [hnone, Option.map_none, Option.toList_none, List.append_nil]
        exact h.told j call result hbefore
      · exact Or.inr hrefused
    · rw [DbClients.step, Threads.step_thread_of_ne hij] at htold
      have hsame : lastAnswer? j (answers ++ (((clients.thread i).answer? action).map
          fun answer => (⟨i, answer.1, answer.2⟩ : DbAnswer ι κ α)).toList) =
            lastAnswer? j answers := by
        cases (clients.thread i).answer? action with
        | none => simp
        | some answer =>
            exact lastAnswer?_snoc_of_ne answers ⟨i, answer.1, answer.2⟩ (Ne.symm hij)
      rw [hsame]
      exact h.told j call result htold

theorem DbClients.Inv.step (h : clients.Inv script start answers) (event : ι × DbAction κ) :
    (clients.step script event).Inv script start
      (answers ++ (clients.answer? event).toList) := by
  refine ⟨h.serialized.step (h.stands.own event.1), ?_⟩
  obtain ⟨i, action⟩ := event
  have hmoves : DbClient.Moves script clients.shared (clients.thread i)
      ((clients.thread i).act script action clients.shared)
      ((clients.thread i).answer? action) := DbClient.act_moves action (clients.thread i)
  apply h.stands.step trivial (hmoves.own (h.stands.own i))
  · intro j hne hother
    exact hmoves.others hother (h.stands.apart i j hne.symm)
  · intro j hne
    have hapart : ((clients.thread i).act script action clients.shared).2.Apart
        (clients.thread j) := hmoves.apart (h.stands.own j) (h.stands.apart i j hne.symm)
    exact ⟨hapart, fun hother hin => hapart hin hother⟩

/-- Whatever the connections do and whatever they are refused, the calls that are answered are
made in a serial order, which is the order of their answers. -/
theorem connections_serialized (script : κ → σ → Script σ Exc α) (start : σ)
    (events : List (ι × DbAction κ)) :
    (run (DbClients.step script) (DbClients.start ι κ α start) events).Serialized script start
      (seen (DbClients.step script) DbClients.answer? (DbClients.start ι κ α start) events) := by
  have hadmits : Admits (DbClients.step script) (fun _ _ => True) (DbClients.start ι κ α start)
      events := admits_iff_forall.mpr fun _ _ _ _ => trivial
  have hinv : (run (DbClients.step script) (DbClients.start ι κ α start) events).Inv script start
      ([] ++ seen (DbClients.step script) DbClients.answer? (DbClients.start ι κ α start)
        events) :=
    hadmits.invariant_seen (fun answers clients => clients.Inv script start answers)
      (fun answers clients event h _ => h.step event) DbClients.inv_start
  exact hinv.serialized

end System

end VerifierCI
