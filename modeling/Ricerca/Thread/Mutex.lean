import Ricerca.Foundation.Execution
import Ricerca.Lib.Queue

/-! The mutex of `thread/locking/mutex.c`. Both functions run with the spinlock of the
mutex held; a task that goes to sleep gives the spinlock up only when it is suspended, so
one call is one step. The mutex is passed on silently: the flag stays set, and the task
that is woken up has the mutex when its call returns. -/
namespace Ricerca.Mutex

open Ricerca.Foundation Ricerca.Lib

variable {Task : Type}

/-- `struct thread_mutex` without its spinlock. A node of the queue lies on the stack of
the task that sleeps, and is named by this task. -/
structure ThreadMutex (Task : Type) where
  sleepQueue : Queue Task
  taken : Bool
  deriving DecidableEq

/-- `THREAD_MUTEX_INIT`. -/
def threadMutexInit : ThreadMutex Task := ⟨queueInit, false⟩

/-- How a call to `thread_mutex_lock` leaves its section: with the mutex, or asleep. -/
inductive Outcome where
  | taken
  | sleeps
  deriving DecidableEq

/-- The outcome, the mutex and the nodes on the stacks; nothing where the code follows a
null pointer. -/
def threadMutexLock [DecidableEq Task] (mutex : ThreadMutex Task) (next : Task → Option Task)
    (task : Task) : Option (Outcome × ThreadMutex Task × (Task → Option Task)) :=
  if mutex.taken = false then some (.taken, { mutex with taken := true }, next)
  else (queueEnqueue mutex.sleepQueue next task).map fun (queue, next) =>
    (.sleeps, { mutex with sleepQueue := queue }, next)

/-- The task that is woken up, and the mutex. -/
def threadMutexUnlock (mutex : ThreadMutex Task) (next : Task → Option Task) :
    Option Task × ThreadMutex Task :=
  match queueDequeue mutex.sleepQueue next with
  | (none, queue) => (none, ⟨queue, false⟩)
  | (some task, queue) => (some task, { mutex with sleepQueue := queue })

/-- The tasks that sleep are in the queue in this order, and only a mutex that is taken has
such tasks. -/
structure ThreadMutex.Queued (mutex : ThreadMutex Task) (next : Task → Option Task)
    (sleepers : List Task) : Prop where
  holds : mutex.sleepQueue.Holds next sleepers
  waited : sleepers ≠ [] → mutex.taken = true

namespace ThreadMutex.Queued

variable {mutex : ThreadMutex Task} {next next' : Task → Option Task} {sleepers : List Task}
  {task : Task}

theorem init (next : Task → Option Task) : (threadMutexInit : ThreadMutex Task).Queued next [] :=
  ⟨.init next, fun hNe => (hNe rfl).elim⟩

theorem congr (h : mutex.Queued next sleepers) (hSame : ∀ n ∈ sleepers, next' n = next n) :
    mutex.Queued next' sleepers :=
  ⟨h.holds.congr hSame, h.waited⟩

/-- A mutex that nobody has is taken. -/
theorem lock_taken [DecidableEq Task] (hFree : mutex.taken = false) :
    threadMutexLock mutex next task = some (.taken, { mutex with taken := true }, next) := by
  simp [threadMutexLock, hFree]

/-- Nobody sleeps on a mutex that nobody has. -/
theorem eq_nil (h : mutex.Queued next sleepers) (hFree : mutex.taken = false) : sleepers = [] := by
  by_contra hNe
  simp [h.waited hNe] at hFree

/-- The task goes to sleep behind the others. -/
theorem lock_sleeps [DecidableEq Task] (h : mutex.Queued next sleepers) (hTaken : mutex.taken = true)
    (hNew : task ∉ sleepers) : ∃ mutex' next',
      threadMutexLock mutex next task = some (.sleeps, mutex', next') ∧ mutex'.taken = true ∧
      mutex'.Queued next' (sleepers ++ [task]) ∧
      ∀ n, n ∉ sleepers → n ≠ task → next' n = next n := by
  obtain ⟨queue, next', hEnqueue, hHolds, hOthers⟩ := h.holds.enqueue hNew
  refine ⟨{ mutex with sleepQueue := queue }, next', ?_, hTaken, ⟨hHolds, fun _ => hTaken⟩, hOthers⟩
  simp [threadMutexLock, hTaken, hEnqueue]

/-- Nobody waits, and the mutex is given up. -/
theorem unlock_nil (h : mutex.Queued next []) :
    ∃ mutex', threadMutexUnlock mutex next = (none, mutex') ∧ mutex'.taken = false ∧
      mutex'.Queued next [] := by
  refine ⟨⟨mutex.sleepQueue, false⟩, ?_, rfl, h.holds, fun hNe => (hNe rfl).elim⟩
  rw [threadMutexUnlock, h.holds.dequeue_nil]

/-- The task that has waited longest gets the mutex. -/
theorem unlock_cons (h : mutex.Queued next (task :: sleepers)) :
    ∃ mutex', threadMutexUnlock mutex next = (some task, mutex') ∧ mutex'.taken = true ∧
      mutex'.Queued next sleepers := by
  obtain ⟨queue, hDequeue, hHolds⟩ := h.holds.dequeue_cons
  have hTaken := h.waited (List.cons_ne_nil _ _)
  refine ⟨{ mutex with sleepQueue := queue }, ?_, hTaken, hHolds, fun _ => hTaken⟩
  rw [threadMutexUnlock, hDequeue]

/-- What a call to `thread_mutex_lock` can do. -/
theorem lock_cases [DecidableEq Task] (h : mutex.Queued next sleepers) (hNew : task ∉ sleepers)
    {outcome : Outcome} {mutex' : ThreadMutex Task}
    (hLock : threadMutexLock mutex next task = some (outcome, mutex', next')) :
    mutex'.taken = true ∧
    (outcome = .taken ∧ mutex.taken = false ∧ sleepers = [] ∧ mutex'.Queued next' [] ∧
        next' = next ∨
      outcome = .sleeps ∧ mutex.taken = true ∧ mutex'.Queued next' (sleepers ++ [task]) ∧
        ∀ n, n ∉ sleepers → n ≠ task → next' n = next n) := by
  cases hTaken : mutex.taken with
  | false =>
      rw [lock_taken hTaken] at hLock
      obtain ⟨rfl, rfl, rfl⟩ : .taken = outcome ∧ { mutex with taken := true } = mutex' ∧
        next = next' := by simpa using hLock
      obtain rfl := h.eq_nil hTaken
      exact ⟨rfl, .inl ⟨rfl, rfl, rfl, ⟨h.holds, fun _ => rfl⟩, rfl⟩⟩
  | true =>
      obtain ⟨mutex₁, next₁, hSleeps, hTaken₁, hQueued, hOthers⟩ := h.lock_sleeps hTaken hNew
      rw [hSleeps] at hLock
      obtain ⟨rfl, rfl, rfl⟩ : .sleeps = outcome ∧ mutex₁ = mutex' ∧ next₁ = next' := by
        simpa using hLock
      exact ⟨hTaken₁, .inr ⟨rfl, rfl, hQueued, hOthers⟩⟩

/-- A call to `thread_mutex_lock` does not follow a null pointer. -/
theorem lock_ne_none [DecidableEq Task] (h : mutex.Queued next sleepers) (hNew : task ∉ sleepers) :
    threadMutexLock mutex next task ≠ none := by
  cases hTaken : mutex.taken with
  | false => simp [lock_taken hTaken]
  | true =>
      obtain ⟨mutex', next', hSleeps, -⟩ := h.lock_sleeps hTaken hNew
      simp [hSleeps]

end ThreadMutex.Queued

end Ricerca.Mutex
