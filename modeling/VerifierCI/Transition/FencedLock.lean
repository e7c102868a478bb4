import Mathlib.Data.List.Range

/-! # A lock with fencing tokens

A lock is free, held, or closed for good. Each time it is acquired a token is
given out, one greater than the last, and one result may be accepted: under the
token of the present holder, which closes the lock.
-/

namespace FencedLock

inductive Phase where
  | free
  | held
  | closed
deriving DecidableEq, Repr

structure Lock where
  phase : Phase
  token : Int
deriving DecidableEq, Repr

def Lock.fresh : Lock := ⟨.free, 0⟩

inductive Event where
  | acquire (token : Int)
  | release
  | close
  | accept (token : Int)
deriving DecidableEq, Repr

/-- The lock after an event, if the event is lawful. -/
def Lock.step? (lock : Lock) : Event → Option Lock
  | .acquire token =>
      if lock.phase = .free ∧ token = lock.token + 1 then some ⟨.held, token⟩ else none
  | .release => if lock.phase = .held then some ⟨.free, lock.token⟩ else none
  | .close => if lock.phase ≠ .closed then some ⟨.closed, lock.token⟩ else none
  | .accept token =>
      if lock.phase = .held ∧ token = lock.token then some ⟨.closed, token⟩ else none

/-- The lock after a list of events, if all of them are lawful. -/
def Lock.replay? (lock : Lock) : List Event → Option Lock
  | [] => some lock
  | event :: rest => (lock.step? event).bind fun next => next.replay? rest

@[simp] theorem Lock.replay?_nil (lock : Lock) : lock.replay? [] = some lock := rfl

theorem Lock.replay?_append (lock : Lock) (first second : List Event) :
    lock.replay? (first ++ second) =
      (lock.replay? first).bind fun next => next.replay? second := by
  induction first generalizing lock with
  | nil => rfl
  | cons event rest ih =>
      rw [List.cons_append, replay?, replay?, Option.bind_assoc]
      congr 1
      funext next
      exact ih next

def acquired (events : List Event) : List Int :=
  events.filterMap fun event =>
    match event with
    | .acquire token => some token
    | _ => none

@[simp] theorem acquired_nil : acquired [] = [] := rfl

theorem acquired_append (first second : List Event) :
    acquired (first ++ second) = acquired first ++ acquired second :=
  List.filterMap_append

section Laws

variable {lock next : Lock} {event : Event} {events : List Event}

/-- No event is lawful in a closed lock. -/
theorem Lock.step?_closed (h : lock.phase = .closed) : lock.step? event = none := by
  cases event <;> simp [step?, h]

theorem Lock.step?_accept {token : Int} (h : lock.step? (.accept token) = some next) :
    next.phase = .closed ∧ token = lock.token := by
  simp only [step?] at h
  split at h
  next hheld =>
    obtain rfl := Option.some.inj h
    exact ⟨rfl, hheld.2⟩
  next => cases h

/-- One event gives out the next token, or none. Only an acquisition counts the token on. -/
theorem Lock.acquired_step (h : lock.step? event = some next) :
    (acquired [event] = [] ∧ next.token = lock.token) ∨
      (acquired [event] = [lock.token + 1] ∧ next.token = lock.token + 1) := by
  cases event with
  | acquire token =>
      simp only [step?] at h
      split at h
      next hfree =>
        obtain rfl := Option.some.inj h
        exact Or.inr ⟨by simp [acquired, hfree.2], hfree.2⟩
      next => cases h
  | release =>
      simp only [step?] at h
      split at h
      next =>
        obtain rfl := Option.some.inj h
        exact Or.inl ⟨rfl, rfl⟩
      next => cases h
  | close =>
      simp only [step?] at h
      split at h
      next =>
        obtain rfl := Option.some.inj h
        exact Or.inl ⟨rfl, rfl⟩
      next => cases h
  | accept token =>
      simp only [step?] at h
      split at h
      next hheld =>
        obtain rfl := Option.some.inj h
        exact Or.inl ⟨rfl, hheld.2⟩
      next => cases h

/-- A lawful list of events gives out consecutive tokens. By induction on the events, from the
token the lock has when the next one comes. -/
theorem Lock.acquired_replay (h : lock.replay? events = some next) :
    (∀ (i : Nat) token, (acquired events)[i]? = some token → token = lock.token + i + 1) ∧
      next.token = lock.token + (acquired events).length := by
  induction events generalizing lock with
  | nil =>
      obtain rfl := Option.some.inj h
      simp
  | cons event rest ih =>
      rw [replay?, Option.bind_eq_some_iff] at h
      obtain ⟨middle, hstep, hrest⟩ := h
      obtain ⟨htokens, hlast⟩ := ih hrest
      have hsplit : acquired (event :: rest) = acquired [event] ++ acquired rest :=
        acquired_append [event] rest
      rw [hsplit]
      rcases acquired_step hstep with ⟨hnone, hsame⟩ | ⟨hone, hnext⟩
      · rw [hnone, List.nil_append, ← hsame]
        exact ⟨htokens, hlast⟩
      · rw [hone, List.singleton_append, List.length_cons]
        constructor
        · intro i token htoken
          cases i with
          | zero => simpa using htoken.symm
          | succ i =>
              have htail := htokens i token (by simpa using htoken)
              push_cast
              omega
        · push_cast
          omega

/-- An accepted result carries the token given out last, and ends the history. -/
theorem Lock.accept_last {before after : List Event} {token : Int}
    (h : Lock.fresh.replay? (before ++ .accept token :: after) = some next) :
    after = [] ∧ token = (acquired before).length := by
  rw [replay?_append, Option.bind_eq_some_iff] at h
  obtain ⟨middle, hbefore, hrest⟩ := h
  rw [replay?, Option.bind_eq_some_iff] at hrest
  obtain ⟨closed, haccept, hafter⟩ := hrest
  obtain ⟨hclosed, htoken⟩ := step?_accept haccept
  constructor
  · cases after with
    | nil => rfl
    | cons event rest =>
        rw [replay?, step?_closed hclosed] at hafter
        cases hafter
  · have hlast := (acquired_replay hbefore).2
    simp only [Lock.fresh] at hlast
    omega

end Laws

end FencedLock
