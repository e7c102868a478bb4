import Mathlib.Logic.Function.Basic
import VerifierCI.Transition.Projection

/-! # Threads over a shared state

Each thread has a state of its own and takes its steps on the shared one, in
any order with the steps of the others. What holds between steps is said in
three parts: about the shared state, by each thread about itself, and between
any two threads. It lasts if no step breaks what another thread says.
-/

namespace Transition

universe uThread uState uLocal uAction

variable {ι : Type uThread} {σ : Type uState} {τ : Type uLocal} {α : Type uAction}

structure Threads (ι : Type uThread) (σ : Type uState) (τ : Type uLocal) where
  shared : σ
  thread : ι → τ

structure Threads.Stands (inv : σ → Prop) (holds : σ → τ → Prop) (apart : τ → τ → Prop)
    (threads : Threads ι σ τ) : Prop where
  shared : inv threads.shared
  own : ∀ i, holds threads.shared (threads.thread i)
  apart : ∀ i j, i ≠ j → apart (threads.thread i) (threads.thread j)

section Step

variable [DecidableEq ι] (act : α → σ → τ → σ × τ)

def Threads.step (threads : Threads ι σ τ) (event : ι × α) : Threads ι σ τ where
  shared := (act event.2 threads.shared (threads.thread event.1)).1
  thread := Function.update threads.thread event.1
    (act event.2 threads.shared (threads.thread event.1)).2

variable {act} {threads : Threads ι σ τ} {i j : ι} {action : α}

@[simp] theorem Threads.step_thread_self :
    (threads.step act (i, action)).thread i = (act action threads.shared (threads.thread i)).2 :=
  Function.update_self ..

@[simp] theorem Threads.step_thread_of_ne (hne : j ≠ i) :
    (threads.step act (i, action)).thread j = threads.thread j :=
  Function.update_of_ne hne ..

@[simp] theorem Threads.step_shared :
    (threads.step act (i, action)).shared = (act action threads.shared (threads.thread i)).1 :=
  rfl

variable {inv inv' : σ → Prop} {holds holds' : σ → τ → Prop} {apart : τ → τ → Prop}

/-- One step keeps what holds if the thread keeps its own part and disturbs no other. What has
to be shown for a system is thereby shown of two threads at a time. -/
theorem Threads.Stands.step (h : threads.Stands inv holds apart)
    (hshared : inv' (act action threads.shared (threads.thread i)).1)
    (hown : holds' (act action threads.shared (threads.thread i)).1
      (act action threads.shared (threads.thread i)).2)
    (hothers : ∀ j, j ≠ i → holds threads.shared (threads.thread j) →
      holds' (act action threads.shared (threads.thread i)).1 (threads.thread j))
    (hapart : ∀ j, j ≠ i →
      apart (act action threads.shared (threads.thread i)).2 (threads.thread j) ∧
        apart (threads.thread j) (act action threads.shared (threads.thread i)).2) :
    (threads.step act (i, action)).Stands inv' holds' apart where
  shared := hshared
  own j := by
    by_cases hne : j = i
    · subst hne
      rw [step_thread_self]
      exact hown
    · rw [step_thread_of_ne hne]
      exact hothers j hne (h.own j)
  apart j k hjk := by
    by_cases hj : j = i
    · subst hj
      rw [step_thread_self, step_thread_of_ne hjk.symm]
      exact (hapart k hjk.symm).1
    · by_cases hk : k = i
      · subst hk
        rw [step_thread_self, step_thread_of_ne hj]
        exact (hapart j hj).2
      · rw [step_thread_of_ne hj, step_thread_of_ne hk]
        exact h.apart j k hjk

end Step

end Transition
