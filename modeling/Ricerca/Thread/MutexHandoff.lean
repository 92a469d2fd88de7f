import Ricerca.Thread.Mutex

/-! Tasks that lock and unlock one mutex. The mutex has at most one owner at any time and
goes to the tasks in the order in which they fell asleep. -/
namespace Ricerca.Mutex

open Ricerca.Foundation Ricerca.Lib

variable {Task : Type}

/-- The mutex, the nodes on the stacks, and which tasks are suspended. The owners are
history: a task becomes one when `thread_mutex_lock` takes the mutex or when it is handed
over to the task, until the task unlocks it. -/
structure State (Task : Type) where
  mutex : ThreadMutex Task
  next : Task → Option Task
  suspended : Task → Bool
  owner : Task → Bool

inductive Event (Task : Type) where
  | lock (task : Task) (outcome : Outcome)
  | unlock (task : Task) (woken : Option Task)
  | write (task : Task) (link : Option Task)
  deriving DecidableEq

/-- One call of a task that is not suspended. The node of a task that does not sleep is no
longer there, so the task may write anything in its place. -/
inductive Step [DecidableEq Task] (s : State Task) : Event Task → State Task → Prop where
  | lock (task : Task) {outcome : Outcome} {mutex : ThreadMutex Task} {next : Task → Option Task}
      (hRuns : s.suspended task = false)
      (hLock : threadMutexLock s.mutex s.next task = some (outcome, mutex, next)) :
      Step s (.lock task outcome)
        { mutex := mutex
          next := next
          suspended := Function.update s.suspended task (outcome = .sleeps)
          owner := Function.update s.owner task (s.owner task || outcome = .taken) }
  | unlock (task : Task) {woken : Option Task} {mutex : ThreadMutex Task}
      (hRuns : s.suspended task = false) (hOwner : s.owner task = true)
      (hUnlock : threadMutexUnlock s.mutex s.next = (woken, mutex)) :
      Step s (.unlock task woken)
        { mutex := mutex
          next := s.next
          suspended := fun a => if woken = some a then false else s.suspended a
          owner := fun a => if woken = some a then true else Function.update s.owner task false a }
  | write (task : Task) (link : Option Task) (hRuns : s.suspended task = false) :
      Step s (.write task link) { s with next := Function.update s.next task link }

def system [DecidableEq Task] : System (State Task) (Event Task) where
  init s := s.mutex = threadMutexInit ∧ (∀ a, s.suspended a = false) ∧ ∀ a, s.owner a = false
  step := Step

/-- The tasks that fell asleep, in this order. -/
def slept (trace : List (Event Task)) : List Task :=
  trace.filterMap fun
    | .lock task .sleeps => some task
    | _ => none

/-- The tasks that the mutex was handed over to, in this order. -/
def handed (trace : List (Event Task)) : List Task :=
  trace.filterMap fun
    | .unlock _ woken => woken
    | _ => none

/-- Owners and sleepers of the mutex. The sleepers are those that fell asleep and were not
handed the mutex yet, in the order in which they fell asleep. -/
structure Handoff (trace : List (Event Task)) (s : State Task) (sleepers : List Task) : Prop where
  one : ∀ a b, s.owner a = true → s.owner b = true → a = b
  taken : s.mutex.taken = true ↔ ∃ a, s.owner a = true
  queued : s.mutex.Queued s.next sleepers
  suspended : ∀ a, a ∈ sleepers ↔ s.suspended a = true
  order : slept trace = handed trace ++ sleepers

section Steps

variable {trace : List (Event Task)} {s s' : State Task} {sleepers : List Task} {task : Task}

theorem Handoff.awake (h : Handoff trace s sleepers) (hRuns : s.suspended task = false) :
    task ∉ sleepers := by
  rw [h.suspended, hRuns]
  simp

variable [DecidableEq Task]

theorem Handoff.lock (h : Handoff trace s sleepers) {outcome : Outcome} {mutex : ThreadMutex Task}
    {next : Task → Option Task} (hRuns : s.suspended task = false)
    (hLock : threadMutexLock s.mutex s.next task = some (outcome, mutex, next)) :
    ∃ sleepers', Handoff (trace ++ [.lock task outcome])
      { mutex := mutex
        next := next
        suspended := Function.update s.suspended task (outcome = .sleeps)
        owner := Function.update s.owner task (s.owner task || outcome = .taken) } sleepers' := by
  have hNew := h.awake hRuns
  obtain ⟨hTaken', hCase⟩ := h.queued.lock_cases hNew hLock
  rcases hCase with ⟨rfl, hFree, rfl, hQueued, -⟩ | ⟨rfl, hTaken, hQueued, -⟩
  · have hNobody : ∀ a, s.owner a = false := by
      intro a
      by_contra hOwner
      rw [h.taken.mpr ⟨a, by simpa using hOwner⟩] at hFree
      cases hFree
    refine ⟨[], ?_, ?_, hQueued, ?_, ?_⟩
    · intro a b
      by_cases ha : a = task <;> by_cases hb : b = task <;> simp [ha, hb, hNobody]
    · refine ⟨fun _ => ⟨task, by simp⟩, fun _ => hTaken'⟩
    · intro a
      have hOld := h.suspended a
      by_cases ha : a = task
      · simp [ha]
      · simpa [ha] using hOld
    · simpa [slept, handed] using h.order
  · refine ⟨sleepers ++ [task], ?_, ?_, hQueued, ?_, ?_⟩
    · simpa using h.one
    · have hSome := h.taken
      simp only [hTaken, hTaken', true_iff] at hSome ⊢
      simpa using hSome
    · intro a
      have hOld := h.suspended a
      by_cases ha : a = task
      · simp [ha]
      · simpa [ha] using hOld
    · have hOrder := h.order
      simp only [slept, handed] at hOrder
      simp [slept, handed, hOrder]

theorem Handoff.unlock (h : Handoff trace s sleepers) {woken : Option Task}
    {mutex : ThreadMutex Task} (hOwner : s.owner task = true)
    (hUnlock : threadMutexUnlock s.mutex s.next = (woken, mutex)) :
    woken = sleepers.head? ∧ Handoff (trace ++ [.unlock task woken])
      { mutex := mutex
        next := s.next
        suspended := fun a => if woken = some a then false else s.suspended a
        owner := fun a => if woken = some a then true else Function.update s.owner task false a }
      sleepers.tail := by
  have hNobody : ∀ a, Function.update s.owner task false a = false := by
    intro a
    by_cases ha : a = task
    · simp [ha]
    · rw [Function.update_of_ne ha]
      by_contra hOther
      exact ha (h.one a task (by simpa using hOther) hOwner)
  have hOrder := h.order
  cases sleepers with
  | nil =>
      obtain ⟨mutex', hResult, hFree, hQueued⟩ := h.queued.unlock_nil
      obtain ⟨rfl, rfl⟩ : none = woken ∧ mutex' = mutex := by simpa [hResult] using hUnlock
      refine ⟨rfl, ?_, ?_, hQueued, ?_, ?_⟩
      · simp [hNobody]
      · simp [hNobody, hFree]
      · simpa using h.suspended
      · simpa [slept, handed] using hOrder
  | cons first rest =>
      obtain ⟨mutex', hResult, hTaken, hQueued⟩ := h.queued.unlock_cons
      obtain ⟨rfl, rfl⟩ : some first = woken ∧ mutex' = mutex := by simpa [hResult] using hUnlock
      have hNodup := List.nodup_cons.mp h.queued.holds.nodup
      refine ⟨rfl, ?_, ?_, hQueued, ?_, ?_⟩
      · simp [hNobody]
      · simp [hTaken]
      · intro a
        have hOld := h.suspended a
        by_cases ha : first = a
        · subst ha
          simpa using hNodup.1
        · simpa [ha, Ne.symm ha] using hOld
      · simp only [slept, handed] at hOrder
        simp [slept, handed, hOrder]

theorem Handoff.write (h : Handoff trace s sleepers) (link : Option Task)
    (hRuns : s.suspended task = false) :
    Handoff (trace ++ [.write task link])
      { s with next := Function.update s.next task link } sleepers := by
  refine ⟨h.one, h.taken, h.queued.congr ?_, h.suspended, ?_⟩
  · intro a hMem
    apply Function.update_of_ne
    rintro rfl
    exact h.awake hRuns hMem
  · simpa [slept, handed] using h.order

theorem Handoff.step (h : Handoff trace s sleepers) {event : Event Task}
    (hStep : Step s event s') : ∃ sleepers', Handoff (trace ++ [event]) s' sleepers' := by
  cases hStep with
  | lock _ hRuns hLock => exact h.lock hRuns hLock
  | unlock _ _ hOwner hUnlock => exact ⟨sleepers.tail, (h.unlock hOwner hUnlock).2⟩
  | write _ link hRuns => exact ⟨sleepers, h.write link hRuns⟩

theorem Handoff.run (run : system.Execution trace s) : ∃ sleepers, Handoff trace s sleepers := by
  apply run.invariant
  · rintro s ⟨hMutex, hSuspended, hOwner⟩
    refine ⟨[], ?_, ?_, ?_, ?_, rfl⟩
    · simp [hOwner]
    · simp [hMutex, hOwner, threadMutexInit]
    · rw [hMutex]
      exact .init s.next
    · simp [hSuspended]
  · rintro trace s event s' - ⟨sleepers, h⟩ hStep
    exact h.step hStep

/-- Whatever the tasks do, the mutex has at most one owner, is taken just as long as it has
one, and keeps everybody who sleeps. It goes to the task that has slept longest, and only a
mutex that nobody waits for is taken without sleep. -/
theorem mutex_handoff (run : system.Execution trace s) : ∃ sleepers, Handoff trace s sleepers ∧
    (∀ task woken s', Step s (.unlock task woken) s' →
      woken = sleepers.head? ∧ ∀ a, s'.owner a = true ↔ woken = some a) ∧
    (∀ task s', Step s (.lock task .taken) s' → sleepers = []) ∧
    ∀ task, s.suspended task = false → threadMutexLock s.mutex s.next task ≠ none := by
  obtain ⟨sleepers, h⟩ := Handoff.run run
  refine ⟨sleepers, h, ?_, ?_, ?_⟩
  · intro task woken s' hStep
    cases hStep with
    | unlock _ _ hOwner hUnlock =>
        obtain ⟨hWoken, hNext⟩ := h.unlock hOwner hUnlock
        refine ⟨hWoken, ?_⟩
        intro a
        by_cases hGiven : woken = some a
        · simp [hGiven]
        · have hOne := h.one a task
          by_cases ha : a = task
          · simp [ha]
          · simp only [hGiven, if_false, Function.update_of_ne ha, iff_false]
            exact fun hOther => ha (hOne hOther hOwner)
  · intro task s' hStep
    cases hStep with
    | lock _ hRuns hLock =>
        rcases (h.queued.lock_cases (h.awake hRuns) hLock).2 with ⟨-, -, hEmpty, -⟩ | ⟨hSleeps, -⟩
        · exact hEmpty
        · cases hSleeps
  · intro task hRuns
    exact h.queued.lock_ne_none (h.awake hRuns)

/-- Two tasks fall asleep while a third one has the mutex; the first of them gets it. -/
theorem mutex_handoff_two_sleepers :
    ∃ s : State (Fin 3), system.Execution [.lock 2 .taken, .lock 0 .sleeps, .lock 1 .sleeps,
        .unlock 2 (some 0)] s ∧ s.owner 0 = true ∧ ∃ sleepers, Handoff [.lock 2 .taken,
        .lock 0 .sleeps, .lock 1 .sleeps, .unlock 2 (some 0)] s sleepers := by
  let s₀ : State (Fin 3) := ⟨threadMutexInit, fun _ => none, fun _ => false, fun _ => false⟩
  have start : system.Execution [] s₀ := .start ⟨rfl, fun _ => rfl, fun _ => rfl⟩
  have taken := start.step (Step.lock 2 rfl rfl)
  have first := taken.step (Step.lock 0 rfl rfl)
  have second := first.step (Step.lock 1 rfl rfl)
  have run := second.step (Step.unlock 2 rfl rfl rfl)
  obtain ⟨sleepers, h, -⟩ := mutex_handoff run
  exact ⟨_, run, rfl, sleepers, h⟩

end Steps

end Ricerca.Mutex
