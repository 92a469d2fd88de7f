import Mathlib.Logic.Function.Basic
import Ricerca.Thread.Mutex

/-! Tables of mutexes. Several mutexes share the stacks on which the nodes of their queues
lie; a table says who has each of them and who sleeps for it, and what one call does. -/
namespace Ricerca.Mutex

open Ricerca.Foundation Ricerca.Lib

variable {Task : Type}

/-- Each mutex is taken just as long as it has a holder, and its queue has the tasks that
sleep for it. The holders are history: a task becomes one when `thread_mutex_lock` takes the
mutex or when it is handed over to the task, until the task unlocks it. -/
structure MutexTable (mutexes : Nat → ThreadMutex Task) (next : Task → Option Task)
    (holder : Nat → Option Task) (waits : Task → Option Nat) (sleepers : Nat → List Task) :
    Prop where
  taken : ∀ u, (mutexes u).taken = true ↔ holder u ≠ none
  queued : ∀ u, (mutexes u).Queued next (sleepers u)
  waits : ∀ u a, a ∈ sleepers u ↔ waits a = some u

namespace MutexTable

variable {mutexes : Nat → ThreadMutex Task} {next next' : Task → Option Task}
  {holder : Nat → Option Task} {waits : Task → Option Nat} {sleepers : Nat → List Task}
  {task : Task} {u : Nat}

/-- A task that sleeps for nothing is in no queue. -/
theorem awake (h : MutexTable mutexes next holder waits sleepers) (hRuns : waits task = none)
    (u : Nat) : task ∉ sleepers u := by
  rw [h.waits, hRuns]
  simp

/-- The queues of two mutexes have no task in common. -/
theorem disjoint (h : MutexTable mutexes next holder waits sleepers) {v : Nat} (hNe : u ≠ v)
    (hMem : task ∈ sleepers u) : task ∉ sleepers v := by
  intro hOther
  rw [h.waits] at hMem hOther
  exact hNe (Option.some.inj (hMem.symm.trans hOther))

/-- Somebody has a mutex for which tasks sleep. -/
theorem holder_ne_none (h : MutexTable mutexes next holder waits sleepers)
    (hMem : task ∈ sleepers u) : holder u ≠ none := by
  rw [← h.taken]
  apply (h.queued u).waited
  exact List.ne_nil_of_mem hMem

/-- A new mutex takes the place of one that nobody has or sleeps for. -/
theorem create (h : MutexTable mutexes next holder waits sleepers) (hHolder : holder u = none) :
    MutexTable (Function.update mutexes u threadMutexInit) next holder waits sleepers := by
  have hEmpty : sleepers u = [] := by
    apply List.eq_nil_iff_forall_not_mem.mpr
    intro a hMem
    exact h.holder_ne_none hMem hHolder
  constructor
  case taken =>
    intro v
    by_cases hv : v = u
    · simp [hv, hHolder, threadMutexInit]
    · simp [hv, h.taken]
  case queued =>
    intro v
    by_cases hv : v = u
    · subst hv
      rw [Function.update_self, hEmpty]
      exact .init next
    · rw [Function.update_of_ne hv]
      exact h.queued v
  case waits => exact h.waits

/-- A task that does not sleep may write anything where its node was. -/
theorem write [DecidableEq Task] (h : MutexTable mutexes next holder waits sleepers)
    (hRuns : waits task = none) (link : Option Task) :
    MutexTable mutexes (Function.update next task link) holder waits sleepers := by
  refine ⟨h.taken, ?_, h.waits⟩
  intro v
  apply (h.queued v).congr
  intro n hn
  apply Function.update_of_ne
  rintro rfl
  exact h.awake hRuns v hn

variable [DecidableEq Task]

/-- A call to `thread_mutex_lock` takes a mutex that nobody has, and sleeps otherwise. -/
theorem lock (h : MutexTable mutexes next holder waits sleepers) (hRuns : waits task = none)
    {outcome : Outcome} {mutex : ThreadMutex Task}
    (hLock : threadMutexLock (mutexes u) next task = some (outcome, mutex, next')) :
    (outcome = .taken ∧ holder u = none ∧
      MutexTable (Function.update mutexes u mutex) next' (Function.update holder u (some task)) waits
        sleepers) ∨
    (outcome = .sleeps ∧ holder u ≠ none ∧
      MutexTable (Function.update mutexes u mutex) next' holder (Function.update waits task (some u))
        (Function.update sleepers u (sleepers u ++ [task]))) := by
  obtain ⟨hTaken, hCase⟩ := (h.queued u).lock_cases (h.awake hRuns u) hLock
  rcases hCase with ⟨rfl, hFree, hEmpty, hQueued, rfl⟩ | ⟨rfl, hOld, hQueued, hOthers⟩
  · left
    have hNobody : holder u = none := by
      have hIff := h.taken u
      rw [hFree] at hIff
      simpa using hIff
    refine ⟨rfl, hNobody, ?_, ?_, h.waits⟩
    · intro v
      by_cases hv : v = u
      · simp [hv, hTaken]
      · simp [hv, h.taken]
    · intro v
      by_cases hv : v = u
      · subst hv
        rw [Function.update_self, hEmpty]
        exact hQueued
      · rw [Function.update_of_ne hv]
        exact h.queued v
  · right
    refine ⟨rfl, (h.taken u).mp hOld, ?_, ?_, ?_⟩
    · intro v
      rw [← h.taken v]
      by_cases hv : v = u
      · simp [hv, hTaken, hOld]
      · simp [hv]
    · intro v
      by_cases hv : v = u
      · subst hv
        simpa using hQueued
      · simp only [Function.update_of_ne hv]
        apply (h.queued v).congr
        intro n hn
        apply hOthers n (h.disjoint hv hn)
        rintro rfl
        exact h.awake hRuns v hn
    · intro v a
      have hAwake := h.awake hRuns v
      by_cases ha : a = task
      · subst ha
        by_cases hv : v = u
        · simp [hv]
        · simp [hv, Ne.symm hv, hAwake]
      · by_cases hv : v = u
        · subst hv
          simp [ha, h.waits]
        · simp [hv, ha, h.waits]

/-- A call to `thread_mutex_unlock` passes the mutex on to the task that has slept longest. -/
theorem unlock (h : MutexTable mutexes next holder waits sleepers) {woken : Option Task}
    {mutex : ThreadMutex Task} (hUnlock : threadMutexUnlock (mutexes u) next = (woken, mutex)) :
    woken = (sleepers u).head? ∧
    MutexTable (Function.update mutexes u mutex) next (Function.update holder u woken)
      (fun a => if woken = some a then none else waits a)
      (Function.update sleepers u (sleepers u).tail) := by
  cases hSleepers : sleepers u with
  | nil =>
      obtain ⟨mutex', hResult, hFree, hQueued⟩ := (hSleepers ▸ h.queued u).unlock_nil
      obtain ⟨rfl, rfl⟩ := Prod.mk.inj (hResult.symm.trans hUnlock)
      refine ⟨rfl, ?_, ?_, ?_⟩
      · intro v
        by_cases hv : v = u
        · simp [hv, hFree]
        · simp [hv, h.taken]
      · intro v
        by_cases hv : v = u
        · subst hv
          simpa using hQueued
        · simpa [hv] using h.queued v
      · intro v a
        have hOld := h.waits v a
        by_cases hv : v = u
        · subst hv
          simpa [hSleepers] using hOld
        · simpa [hv] using hOld
  | cons first rest =>
      obtain ⟨mutex', hResult, hTaken, hQueued⟩ := (hSleepers ▸ h.queued u).unlock_cons
      obtain ⟨rfl, rfl⟩ := Prod.mk.inj (hResult.symm.trans hUnlock)
      have hNodup := (h.queued u).holds.nodup
      rw [hSleepers, List.nodup_cons] at hNodup
      refine ⟨rfl, ?_, ?_, ?_⟩
      · intro v
        by_cases hv : v = u
        · simp [hv, hTaken]
        · simp [hv, h.taken]
      · intro v
        by_cases hv : v = u
        · subst hv
          simpa using hQueued
        · simpa [hv] using h.queued v
      · intro v a
        have hOld := h.waits v a
        have hFirst : waits first = some u := by
          rw [← h.waits, hSleepers]
          exact List.mem_cons_self ..
        by_cases ha : first = a
        · subst ha
          by_cases hv : v = u
          · subst hv
            simpa using hNodup.1
          · simp [hv, hOld, hFirst, Ne.symm hv]
        · by_cases hv : v = u
          · subst hv
            simpa [ha, Ne.symm ha, hSleepers] using hOld
          · simpa [hv, ha] using hOld

/-- A call to `thread_mutex_lock` does not follow a null pointer. -/
theorem lock_ne_none (h : MutexTable mutexes next holder waits sleepers) (hRuns : waits task = none) :
    threadMutexLock (mutexes u) next task ≠ none :=
  (h.queued u).lock_ne_none (h.awake hRuns u)

end MutexTable

end Ricerca.Mutex
