import Mathlib.Data.List.Basic
import Mathlib.Tactic.Common

/-! # Scripts

A script works on a state in statements, each of which may fail. Statements are
the points between which something else may happen; `run` is the script with
nothing in between.
-/

namespace Transition

universe uState uError

/-- What comes next may depend on the state before a statement and on the state behind it. -/
inductive Script (σ : Type uState) (ε : Type uError) (α : Type uState) where
  | done (value : α)
  | raise (exc : ε)
  | statement (effect : σ → Except ε σ) (next : σ → σ → Script σ ε α)

namespace Script

variable {σ : Type uState} {ε : Type uError} {α β : Type uState}

def run : Script σ ε α → σ → Except ε (α × σ)
  | .done value, state => .ok (value, state)
  | .raise exc, _ => .error exc
  | .statement effect next, state =>
      match effect state with
      | .error exc => .error exc
      | .ok after => (next state after).run after

def bind : Script σ ε α → (α → Script σ ε β) → Script σ ε β
  | .done value, next => next value
  | .raise exc, _ => .raise exc
  | .statement effect rest, next => .statement effect fun before after =>
      (rest before after).bind next

instance : Monad (Script σ ε) where
  pure := .done
  bind := bind

def select (read : σ → α) : Script σ ε α :=
  .statement .ok fun _ after => .done (read after)

/-- A statement that writes. -/
def execute (effect : σ → Except ε σ) : Script σ ε PUnit :=
  .statement effect fun _ _ => .done ⟨⟩

/-- What is computed between two statements. -/
def ofExcept : Except ε α → Script σ ε α
  | .ok value => .done value
  | .error exc => .raise exc

/-- One turn for each element. -/
def forEach {γ : Type uState} (body : γ → Script σ ε PUnit) : List γ → Script σ ε PUnit
  | [] => .done ⟨⟩
  | item :: rest => (body item).bind fun _ => forEach body rest

/-! ## Running the parts -/

section Run

variable {script : Script σ ε α} {next : α → Script σ ε β} {state : σ}

@[simp] theorem run_done (value : α) : (done value : Script σ ε α).run state = .ok (value, state) :=
  rfl

@[simp] theorem run_raise (exc : ε) : (raise exc : Script σ ε α).run state = .error exc := rfl

@[simp] theorem run_pure (value : α) : (pure value : Script σ ε α).run state = .ok (value, state) :=
  rfl

@[simp] theorem run_select (read : σ → α) :
    (select read : Script σ ε α).run state = .ok (read state, state) := rfl

theorem run_statement {effect : σ → Except ε σ} {rest : σ → σ → Script σ ε α} {after : σ}
    (h : effect state = .ok after) :
    (statement effect rest).run state = (rest state after).run after := by
  rw [run, h]

theorem run_statement_error {effect : σ → Except ε σ} {rest : σ → σ → Script σ ε α} {exc : ε}
    (h : effect state = .error exc) : (statement effect rest).run state = .error exc := by
  rw [run, h]

@[simp] theorem run_execute (effect : σ → Except ε σ) :
    (execute effect).run state = (effect state).map (⟨⟩, ·) := by
  rw [execute, run]
  cases effect state <;> rfl

@[simp] theorem run_ofExcept (result : Except ε α) :
    (ofExcept result : Script σ ε α).run state = result.map (·, state) := by
  cases result <;> rfl

/-- A script in two parts runs the second on what the first leaves. -/
theorem run_bind (script : Script σ ε α) (next : α → Script σ ε β) (state : σ) :
    (script >>= next).run state =
      (script.run state).bind fun result => (next result.1).run result.2 := by
  change (script.bind next).run state = _
  induction script generalizing state with
  | done value => rfl
  | raise exc => rfl
  | statement effect rest ih =>
      rw [bind, run, run]
      cases effect state with
      | error exc => rfl
      | ok after => exact ih state after after

theorem run_bind_ok {value : α} {after : σ} (h : script.run state = .ok (value, after)) :
    (script >>= next).run state = (next value).run after := by
  rw [run_bind, h]
  rfl

theorem run_map (f : α → β) (script : Script σ ε α) (state : σ) :
    (f <$> script).run state = (script.run state).map fun result => (f result.1, result.2) := by
  change (script >>= fun value => pure (f value)).run state = _
  rw [run_bind]
  cases script.run state <;> rfl

@[simp] theorem run_pure_bind (value : α) :
    ((pure value : Script σ ε α) >>= next).run state = (next value).run state := rfl

@[simp] theorem run_raise_bind (exc : ε) :
    ((raise exc : Script σ ε α) >>= next).run state = .error exc := rfl

@[simp] theorem run_select_bind (read : σ → α) :
    (select read >>= next).run state = (next (read state)).run state := rfl

@[simp] theorem run_ofExcept_bind (result : Except ε α) :
    (ofExcept result >>= next).run state = result >>= fun value => (next value).run state := by
  cases result <;> rfl

@[simp] theorem run_execute_bind (effect : σ → Except ε σ) {next : PUnit → Script σ ε β} :
    (execute effect >>= next).run state = effect state >>= fun after => (next ⟨⟩).run after := by
  rw [run_bind, run_execute]
  cases effect state <;> rfl

/-- A script without a value, in front of another. -/
theorem run_bind_of_run {first : Script σ ε PUnit} {left : Except ε σ}
    (h : first.run state = left.map (⟨⟩, ·)) {next : PUnit → Script σ ε β} :
    (first >>= next).run state = left >>= fun after => (next ⟨⟩).run after := by
  rw [run_bind, h]
  cases left <;> rfl

/-- A loop runs as the fold of its turns. -/
theorem run_forEach {γ : Type uState} {body : γ → Script σ ε PUnit} {turn : σ → γ → Except ε σ}
    (hbody : ∀ item state, (body item).run state = (turn state item).map (⟨⟩, ·))
    (items : List γ) (state : σ) :
    (forEach body items).run state = (items.foldlM turn state).map (⟨⟩, ·) := by
  induction items generalizing state with
  | nil => rfl
  | cons item rest ih =>
      have hrest : (forEach body (item :: rest)).run state =
          ((body item).run state).bind fun result => (forEach body rest).run result.2 :=
        run_bind (body item) (fun _ => forEach body rest) state
      rw [hrest, hbody, List.foldlM_cons]
      cases turn state item with
      | error exc => rfl
      | ok after => exact ih after

end Run

end Script

/-- The script as a whole: its value and the state it leaves, or an exception and the state it
found. -/
def atomically {σ : Type uState} {ε : Type uError} {α : Type uState} (script : Script σ ε α)
    (state : σ) : Except ε α × σ :=
  match script.run state with
  | .error exc => (.error exc, state)
  | .ok (value, after) => (.ok value, after)

end Transition
