import Ricerca.Lib.PairingHeapOrder
import Ricerca.Thread.LocalschedEffects

/-! Two facts about the local schedulers that the arithmetic rests on: every heap is ordered by
unfairness, and the current task of a core carries the time at which the core last read its
counter. -/
namespace Ricerca.Localsched

open Foundation PairingHeap

universe u

variable {κ τ : Type u} [DecidableEq κ] [DecidableEq τ]

/-- The values of its counter that a core reads in an action. One that does not come to the
second reading has some later value there. -/
def readings (core : κ) : Action κ τ → List UInt64
  | .timer other tsc tsc' | .yield other tsc tsc' | .suspendCurrent other tsc tsc'
  | .terminate other tsc tsc' => if other = core then [tsc, tsc'] else []
  | .bootstrap other tsc | .idleRound other tsc => if other = core then [tsc] else []
  | .associate _ _ | .wakeUp _ | .ipi _ | .interrupt _ => []

/-- The last reading of each core, brought up to date. -/
def advance (now : κ → UInt64) (action : Action κ τ) (core : κ) : UInt64 :=
  (readings core action).getLast?.getD (now core)

/-- The heap of every core is ordered. -/
def SortedAll (s : State κ τ) : Prop :=
  ∀ core, Sorted (threadLocalschedCmpUnfairness s) s.hooks (s.localsched core).heapRoot

/-- A core that has a current task started it when it last read its counter. -/
def Stamped (now : κ → UInt64) (s : State κ τ) : Prop :=
  ∀ core x, (s.localsched core).currentTask = some x → (s.task x).timestamp = now core

variable {s s' : State κ τ} {held : Place κ → List τ} {live : List τ} {queue : κ → List τ}
  {core : κ} {task : τ} {tsc tsc' : UInt64} {depth : Nat} {now : κ → UInt64}

omit [DecidableEq κ] [DecidableEq τ] in
theorem cmpUnfairness_strictWeak (s : State κ τ) :
    Forest.StrictWeak (threadLocalschedCmpUnfairness s) :=
  lessThan_strictWeak fun x => (s.task x).unfairness.toNat

section Order

omit [DecidableEq κ] [DecidableEq τ] in
/-- The unfairness of tasks in heaps does not change. -/
theorem SortedAll.congr (h : SortedAll s)
    (hHeap : ∀ core, Heap s.hooks (s.localsched core).heapRoot (held (.queued core)))
    (hHooks : s'.hooks = s.hooks)
    (hRoot : ∀ core, (s'.localsched core).heapRoot = (s.localsched core).heapRoot)
    (hSame : ∀ core, ∀ x ∈ held (.queued core), (s'.task x).unfairness = (s.task x).unfairness) :
    SortedAll s' := by
  intro core
  rw [hHooks, hRoot]
  apply (h core).congr (hHeap core)
  intro x hx y hy
  rw [threadLocalschedCmpUnfairness, threadLocalschedCmpUnfairness, hSame core x hx, hSame core y hy]

omit [DecidableEq τ] in
theorem SortedAll.setHeap {heap : Option τ × Hooks τ}
    (hAt : Sorted (threadLocalschedCmpUnfairness s) heap.2 heap.1)
    (hOthers : ∀ other, other ≠ core →
      Sorted (threadLocalschedCmpUnfairness s) heap.2 (s.localsched other).heapRoot) :
    SortedAll (s.setHeap core heap) := by
  intro other
  have hCmp : threadLocalschedCmpUnfairness (s.setHeap core heap) = threadLocalschedCmpUnfairness s :=
    rfl
  rw [hCmp]
  by_cases hOther : other = core
  · subst hOther
    simpa [State.setHeap, State.setData] using hAt
  · simpa [State.setHeap, State.setData, hOther] using hOthers other hOther

/-- A task that is in no heap is put into the heap of a core. -/
theorem SortedAll.enqueue (h : SortedAll s) (hArranged : Arranged s held live)
    (hNew : ∀ other, task ∉ held (.queued other)) :
    SortedAll (threadLocalschedEnqueueNolock core task s) := by
  have hInsert := (hArranged.heap core).insert (threadLocalschedCmpUnfairness s) (hNew core)
  apply SortedAll.setHeap
  · exact (h core).insert (cmpUnfairness_strictWeak s) (hArranged.heap core) (hNew core)
  · intro other hOther
    apply (h other).frame (hArranged.heap other) hInsert.2
    intro x hx hMem
    rcases List.mem_cons.mp hMem with rfl | hMem
    · exact hNew other hx
    · exact hOther (Place.queued.inj (hArranged.placed.disjoint _ _ x hx hMem))

/-- A heap is asked for a task: the task that comes out has at most the unfairness of the one
that would come next. -/
theorem SortedAll.tryDequeue (h : SortedAll s) (hArranged : Arranged s held live)
    {result : Option τ}
    (hTry : threadLocalschedTryDequeueNolock depth core s = some (result, s')) :
    SortedAll s' ∧ ∀ first next, result = some first → (s'.localsched core).heapRoot = some next →
      (s'.task first).unfairness ≤ (s'.task next).unfairness := by
  rw [threadLocalschedTryDequeueNolock, Option.map_eq_some_iff] at hTry
  obtain ⟨⟨res, heap⟩, hRemove, hEq⟩ := hTry
  cases hEq
  obtain ⟨hSorted, hLeast⟩ :=
    (h core).removeMin (cmpUnfairness_strictWeak s) (hArranged.heap core) hRemove
  obtain ⟨-, rest, hPerm, -, hSame⟩ := (hArranged.heap core).removeMin hRemove
  constructor
  · apply SortedAll.setHeap hSorted
    intro other hOther
    apply (h other).frame (hArranged.heap other) hSame
    intro x hx hMem
    have hQueued : x ∈ held (.queued core) := hPerm.mem_iff.mpr (List.mem_append_right _ hMem)
    exact hOther (Place.queued.inj (hArranged.placed.disjoint _ _ x hx hQueued))
  · intro first next hFirst hNext
    have hRoot : heap.1 = some next := by simpa [State.setHeap, State.setData] using hNext
    have hNot := hLeast first next hFirst hRoot
    rw [threadLocalschedCmpUnfairness, decide_eq_false_iff_not, UInt64.not_lt] at hNot
    exact hNot

omit [DecidableEq κ] [DecidableEq τ] in
/-- No unfairness changes. -/
theorem SortedAll.same (h : SortedAll s) (hHooks : s'.hooks = s.hooks)
    (hRoot : ∀ core, (s'.localsched core).heapRoot = (s.localsched core).heapRoot)
    (hSame : ∀ x, (s'.task x).unfairness = (s.task x).unfairness) : SortedAll s' := by
  have hCmp : threadLocalschedCmpUnfairness s' = threadLocalschedCmpUnfairness s := by
    funext x y
    rw [threadLocalschedCmpUnfairness, threadLocalschedCmpUnfairness, hSame, hSame]
  intro core
  rw [hCmp, hHooks, hRoot]
  exact h core

omit [DecidableEq τ] in
theorem setData_heapRoot {value : LocalschedData τ}
    (hRoot : value.heapRoot = (s.localsched core).heapRoot) (other : κ) :
    ((s.setData core value).localsched other).heapRoot = (s.localsched other).heapRoot := by
  by_cases hOther : other = core
  · subst hOther
    simpa [State.setData] using hRoot
  · simp [State.setData, hOther]

/-- A task starts to run. -/
theorem SortedAll.resume (h : SortedAll s) : SortedAll (resume core task tsc s) :=
  h.same rfl (setData_heapRoot rfl) fun _ => resume_unfairness

theorem SortedAll.dequeue (h : SortedAll s) (hArranged : Arranged s held live)
    (hDequeue : threadLocalschedDequeue depth core tsc s = some s') : SortedAll s' := by
  rw [threadLocalschedDequeue, Option.map_eq_some_iff] at hDequeue
  obtain ⟨⟨result, taken⟩, hTry, rfl⟩ := hDequeue
  have hTaken := (h.tryDequeue hArranged hTry).1
  cases result with
  | none => exact hTaken.same rfl (setData_heapRoot rfl) fun _ => rfl
  | some task => exact hTaken.resume

theorem SortedAll.dequeueRound (h : SortedAll s) (hArranged : Arranged s held live)
    (hDequeue : threadLocalschedDequeueRound depth core tsc s = some s') : SortedAll s' := by
  rw [threadLocalschedDequeueRound, Option.map_eq_some_iff] at hDequeue
  obtain ⟨⟨result, taken⟩, hTry, rfl⟩ := hDequeue
  have hTaken := (h.tryDequeue hArranged hTry).1
  cases result with
  | none => exact hTaken.same rfl (fun _ => rfl) fun _ => rfl
  | some task => exact hTaken.resume

/-- The current task is charged; it is in no heap. -/
theorem SortedAll.charged (h : SortedAll s) (hConserved : Conserved s queue)
    (hCurrent : (s.localsched core).currentTask = some task)
    (hUpdate : threadLocalschedUpdateUnfairness core task tsc s = some s') : SortedAll s' := by
  have hQuiet := updateUnfairness_quiet hUpdate
  apply h.congr hConserved.arranged.heap hQuiet.hooks hQuiet.heapRoot
  intro other x hx
  apply updateUnfairness_unfairness _ hUpdate
  rintro rfl
  have hMem : x ∈ places s queue (.current core) := by simp [places, hCurrent]
  cases hConserved.arranged.placed.disjoint _ _ x hx hMem

/-- The current task is put away. -/
theorem SortedAll.depart (h : SortedAll s) (hConserved : Conserved s queue)
    (hCurrent : (s.localsched core).currentTask = some task) (fate : Fate) :
    SortedAll (depart core task s fate) := by
  cases fate with
  | requeue =>
      apply h.enqueue hConserved.arranged
      intro other hQueued
      have hMem : task ∈ places s queue (.current core) := by simp [places, hCurrent]
      cases hConserved.arranged.placed.disjoint _ _ task hQueued hMem
  | suspend => exact h.same rfl (fun _ => rfl) fun _ => depart_unfairness
  | terminate => exact h.same rfl (fun _ => rfl) fun _ => rfl

omit [DecidableEq τ] in
theorem SortedAll.interrupted (h : SortedAll s) : SortedAll (interrupted core s) := by
  have hQuiet : Quiet s (Localsched.interrupted core s) := interrupted_quiet
  apply h.same hQuiet.hooks hQuiet.heapRoot
  intro x
  rw [Localsched.interrupted]
  split <;> rfl

theorem SortedAll.leave {fate : Fate} (h : SortedAll s) (hConserved : Conserved s queue)
    (hLeave : leave depth core fate tsc tsc' s = some s') : SortedAll s' := by
  rw [Localsched.leave] at hLeave
  split at hLeave
  · cases hLeave
  · rename_i oldTask hCurrent
    simp only [Option.bind_eq_bind, Option.bind_eq_some_iff] at hLeave
    obtain ⟨charged, hUpdate, hDequeue⟩ := hLeave
    have hQuiet := updateUnfairness_quiet hUpdate
    have hNow := (hQuiet.currentTask core).trans hCurrent
    obtain ⟨held, hBetween⟩ := (hConserved.quiet hQuiet).depart hNow fate
    have hDeparted := (h.charged hConserved hCurrent hUpdate).depart (hConserved.quiet hQuiet) hNow fate
    have hCleared : SortedAll ((Localsched.depart core oldTask charged fate).setData core
        { (Localsched.depart core oldTask charged fate).localsched core with currentTask := none }) :=
      hDeparted.same rfl (setData_heapRoot rfl) fun _ => rfl
    exact hCleared.dequeue hBetween.clear.arranged hDequeue

theorem SortedAll.timer (h : SortedAll s) (hConserved : Conserved s queue)
    (hTimer : threadLocalschedTimerIntHandler depth core tsc tsc' s = some s') : SortedAll s' := by
  rw [threadLocalschedTimerIntHandler] at hTimer
  split at hTimer
  · cases hTimer
    exact h.interrupted
  · rename_i oldTask hCurrent
    simp only [Option.bind_eq_bind, Option.bind_eq_some_iff, Option.some.injEq, Prod.exists] at hTimer
    obtain ⟨charged, hUpdate, result, taken, hTry, rfl⟩ := hTimer
    have hQuiet := updateUnfairness_quiet hUpdate
    have hNow := (hQuiet.currentTask core).trans hCurrent
    have hBetween := (hConserved.quiet hQuiet).requeue hNow
    have hQueued := (h.charged hConserved hCurrent hUpdate).depart (hConserved.quiet hQuiet) hNow
      .requeue
    exact (hQueued.tryDequeue hBetween.arranged hTry).1.resume

/-- A task that is in no heap is woken up. -/
theorem SortedAll.wakeUp (h : SortedAll s) (hArranged : Arranged s held live)
    (hNew : ∀ other, task ∉ held (.queued other)) : SortedAll (threadLocalschedWakeUp task s) := by
  have hUntouched : Untouched s (charge task s) live := charge_untouched
  have hCharged : SortedAll (charge task s) := by
    apply h.congr hArranged.heap hUntouched.hooks hUntouched.heapRoot
    intro other x hx
    have hNe : x ≠ task := fun hEq => hNew other (hEq ▸ hx)
    simp [charge, State.setData, State.setTask, hNe]
  have hEnqueued : SortedAll
      (threadLocalschedEnqueueNolock (s.task task).coreId task (charge task s)) :=
    hCharged.enqueue (hArranged.congr hUntouched) hNew
  rw [threadLocalschedWakeUp, threadLocalschedEnqueueSignalNolock]
  split
  · exact hEnqueued.same rfl (fun _ => rfl) fun _ => rfl
  · exact hEnqueued

/-- Every step keeps the heaps in order. -/
theorem SortedAll.step {action : Action κ τ} (h : SortedAll s) (hConserved : Conserved s queue)
    (hExec : exec depth s action = some s') : SortedAll s' := by
  cases action with
  | associate logicalId task =>
      simp only [exec] at hExec
      split at hExec
      · cases hExec
      · rename_i hLive
        cases hExec
        have hNew : ∀ other, task ∉ places s queue (.queued other) :=
          fun other => hConserved.notMem hLive (.queued other)
        have hSet : ∀ value, SortedAll (s.setTask task value) := by
          intro value
          refine h.congr hConserved.arranged.heap rfl (fun _ => rfl) fun other x hx => ?_
          have hNe : x ≠ task := fun hEq => hNew other (hEq ▸ hx)
          simp [State.setTask, hNe]
        have hWoken : ∀ value, SortedAll (threadLocalschedWakeUp task (s.setTask task value)) :=
          fun value => (hSet value).wakeUp (hConserved.setNew hLive value).arranged hNew
        exact (hWoken _).same rfl (fun _ => rfl) fun _ => rfl
  | wakeUp task =>
      simp only [exec] at hExec
      split at hExec
      · rename_i hSuspended
        cases hExec
        have hNew : ∀ other, task ∉ places s queue (.queued other) := by
          intro other hMem
          cases hConserved.arranged.placed.disjoint (.queued other) .suspended task hMem hSuspended
        exact (h.wakeUp hConserved.arranged hNew).same rfl (fun _ => rfl) fun _ => rfl
      · split at hExec
        · cases hExec
        · rename_i hLive
          cases hExec
          exact (h.wakeUp hConserved.arranged fun other => hConserved.notMem hLive
            (.queued other)).same rfl (fun _ => rfl) fun _ => rfl
  | timer core tsc tsc' => exact h.timer hConserved hExec
  | yield core tsc tsc' => exact h.leave hConserved hExec
  | suspendCurrent core tsc tsc' => exact h.leave hConserved hExec
  | terminate core tsc tsc' => exact h.leave hConserved hExec
  | bootstrap core tsc =>
      simp only [exec] at hExec
      split at hExec
      · exact h.dequeue hConserved.arranged hExec
      · cases hExec
  | idleRound core tsc =>
      simp only [exec] at hExec
      split at hExec
      · exact h.dequeueRound hConserved.arranged hExec
      · cases hExec
  | ipi core =>
      simp only [exec] at hExec
      split at hExec
      · cases hExec
      · cases hExec
        have hTaken : SortedAll ((threadLocalschedIpiDummy core s).setIpis core (s.ipis core - 1)) :=
          h.same rfl (setData_heapRoot rfl) fun _ => rfl
        exact hTaken.interrupted
  | interrupt core =>
      cases hExec
      exact h.interrupted

end Order

section Stamps

/-- No task starts or stops. -/
structure Still (s s' : State κ τ) : Prop where
  currentTask : ∀ core, (s'.localsched core).currentTask = (s.localsched core).currentTask
  timestamp : ∀ x, (s'.task x).timestamp = (s.task x).timestamp

/-- The core has looked for a task, and gives the counter's value to the one it found. -/
structure Resumed (core : κ) (tsc : UInt64) (s s' : State κ τ) : Prop where
  others : ∀ other, other ≠ core →
    (s'.localsched other).currentTask = (s.localsched other).currentTask
  started : ∀ x, (s'.localsched core).currentTask = some x → (s'.task x).timestamp = tsc
  kept : ∀ x, (s'.localsched core).currentTask ≠ some x →
    (s'.task x).timestamp = (s.task x).timestamp

omit [DecidableEq κ] [DecidableEq τ] in
theorem Still.trans {s'' : State κ τ} (h : Still s s') (h' : Still s' s'') : Still s s'' :=
  ⟨fun core => (h'.currentTask core).trans (h.currentTask core),
    fun x => (h'.timestamp x).trans (h.timestamp x)⟩

omit [DecidableEq τ] in
theorem still_setData {value : LocalschedData τ}
    (hCurrent : value.currentTask = (s.localsched core).currentTask) :
    Still s (s.setData core value) := by
  refine ⟨fun other => ?_, fun _ => rfl⟩
  by_cases hOther : other = core
  · subst hOther
    simpa [State.setData] using hCurrent
  · simp [State.setData, hOther]

omit [DecidableEq κ] in
theorem still_setTask {value : ThreadTask κ} (hStamp : value.timestamp = (s.task task).timestamp) :
    Still s (s.setTask task value) := by
  refine ⟨fun _ => rfl, fun x => ?_⟩
  by_cases hx : x = task
  · subst hx
    simpa [State.setTask] using hStamp
  · simp [State.setTask, hx]

theorem still_set {value : ThreadTask κ} {data : LocalschedData τ}
    (hStamp : value.timestamp = (s.task task).timestamp)
    (hCurrent : data.currentTask = (s.localsched core).currentTask) :
    Still s ((s.setTask task value).setData core data) := by
  have hTask : Still s (s.setTask task value) := still_setTask hStamp
  have hData : Still (s.setTask task value) ((s.setTask task value).setData core data) :=
    still_setData hCurrent
  exact hTask.trans hData

omit [DecidableEq τ] in
theorem still_setHeap {heap : Option τ × Hooks τ} : Still s (s.setHeap core heap) := by
  have hData : Still s (s.setData core { s.localsched core with heapRoot := heap.1 }) :=
    still_setData rfl
  exact { hData with }

theorem still_wakeUp : Still s (threadLocalschedWakeUp task s) := by
  have hTask : Still s (charge task s) := still_set rfl rfl
  have hHeap : Still (charge task s)
      (threadLocalschedEnqueueNolock (s.task task).coreId task (charge task s)) := still_setHeap
  rw [threadLocalschedWakeUp, threadLocalschedEnqueueSignalNolock]
  split
  · exact { hTask.trans hHeap with }
  · exact hTask.trans hHeap

omit [DecidableEq τ] in
theorem still_interrupted : Still s (interrupted core s) := by
  rw [interrupted]
  split <;> exact ⟨fun _ => rfl, fun _ => rfl⟩

theorem updateUnfairness_still
    (hUpdate : threadLocalschedUpdateUnfairness core task tsc s = some s') : Still s s' := by
  simp only [threadLocalschedUpdateUnfairness] at hUpdate
  split at hUpdate
  · cases hUpdate
  · cases hUpdate
    exact still_set rfl rfl

theorem depart_still {fate : Fate} : Still s (depart core task s fate) := by
  cases fate with
  | requeue => exact still_setHeap
  | suspend =>
      have hTask : Still s (s.setTask task
          { s.task task with accUnfairnessIdle := (s.localsched core).idleUnfairness }) :=
        still_setTask rfl
      exact { hTask with }
  | terminate => exact ⟨fun _ => rfl, fun _ => rfl⟩

omit [DecidableEq κ] [DecidableEq τ] in
theorem Still.resumed {s'' : State κ τ} (h : Still s s') (h' : Resumed core tsc s' s'') :
    Resumed core tsc s s'' where
  others other hOther := (h'.others other hOther).trans (h.currentTask other)
  started := h'.started
  kept x hx := (h'.kept x hx).trans (h.timestamp x)

theorem resume_resumed : Resumed core tsc s (resume core task tsc s) := by
  refine ⟨fun other hOther => ?_, fun x hx => ?_, fun x hx => ?_⟩
  · simp [resume, State.setPhase, State.setData, State.setTask, hOther]
  · have hEq : task = x := by
      simpa [resume, State.setPhase, State.setData, State.setTask] using hx
    subst hEq
    simp [resume, State.setPhase, State.setData, State.setTask]
  · have hNe : x ≠ task := by
      rintro rfl
      simp [resume, State.setPhase, State.setData] at hx
    simp [resume, State.setPhase, State.setData, State.setTask, hNe]

omit [DecidableEq κ] [DecidableEq τ] in
/-- A core without a current task has looked for one and not found it. -/
theorem Still.halted (h : Still s s') (hNone : (s.localsched core).currentTask = none) :
    Resumed core tsc s s' where
  others other _ := h.currentTask other
  started x hx := by
    rw [h.currentTask, hNone] at hx
    cases hx
  kept x _ := h.timestamp x

theorem dequeue_resumed (hNone : (s.localsched core).currentTask = none)
    (hDequeue : threadLocalschedDequeue depth core tsc s = some s') : Resumed core tsc s s' := by
  rw [threadLocalschedDequeue, Option.map_eq_some_iff] at hDequeue
  obtain ⟨⟨result, taken⟩, hTry, rfl⟩ := hDequeue
  obtain ⟨heap, rfl⟩ := tryDequeue_eq hTry
  have hHeap : Still s (s.setHeap core heap) := still_setHeap
  cases result with
  | none =>
      have hIdle : Still (s.setHeap core heap) ((s.setHeap core heap).setData core
          { (s.setHeap core heap).localsched core with idle := true }) := still_setData rfl
      apply Still.halted _ hNone
      exact { hHeap.trans hIdle with }
  | some task => exact hHeap.resumed resume_resumed

theorem dequeueRound_resumed (hNone : (s.localsched core).currentTask = none)
    (hDequeue : threadLocalschedDequeueRound depth core tsc s = some s') :
    Resumed core tsc s s' := by
  rw [threadLocalschedDequeueRound, Option.map_eq_some_iff] at hDequeue
  obtain ⟨⟨result, taken⟩, hTry, rfl⟩ := hDequeue
  obtain ⟨heap, rfl⟩ := tryDequeue_eq hTry
  have hHeap : Still s (s.setHeap core heap) := still_setHeap
  cases result with
  | none =>
      apply Still.halted _ hNone
      exact { hHeap with }
  | some task => exact hHeap.resumed resume_resumed

theorem leave_resumed {fate : Fate} (hLeave : leave depth core fate tsc tsc' s = some s') :
    Resumed core tsc' s s' := by
  rw [leave] at hLeave
  split at hLeave
  · cases hLeave
  · rename_i oldTask hCurrent
    simp only [Option.bind_eq_bind, Option.bind_eq_some_iff] at hLeave
    obtain ⟨charged, hUpdate, hDequeue⟩ := hLeave
    have hPut : Still s (depart core oldTask charged fate) :=
      (updateUnfairness_still hUpdate).trans depart_still
    have hFound := dequeue_resumed (by simp [State.setData]) hDequeue
    refine ⟨fun other hOther => ?_, hFound.started, fun x hx => ?_⟩
    · rw [hFound.others other hOther, ← hPut.currentTask other]
      simp [State.setData, hOther]
    · rw [hFound.kept x hx, ← hPut.timestamp x]
      rfl

theorem timer_resumed (hTimer : threadLocalschedTimerIntHandler depth core tsc tsc' s = some s') :
    Resumed core tsc' s s' := by
  rw [threadLocalschedTimerIntHandler] at hTimer
  split at hTimer
  · rename_i hNone
    cases hTimer
    exact still_interrupted.halted hNone
  · rename_i oldTask hCurrent
    simp only [Option.bind_eq_bind, Option.bind_eq_some_iff, Option.some.injEq, Prod.exists] at hTimer
    obtain ⟨charged, hUpdate, result, taken, hTry, rfl⟩ := hTimer
    obtain ⟨heap, rfl⟩ := tryDequeue_eq hTry
    have hQueued : Still s (threadLocalschedEnqueueNolock core oldTask charged) :=
      (updateUnfairness_still hUpdate).trans still_setHeap
    exact (hQueued.trans still_setHeap).resumed resume_resumed

omit [DecidableEq κ] [DecidableEq τ] in
theorem Stamped.still (h : Stamped now s) (hStill : Still s s') : Stamped now s' := by
  intro core x hx
  rw [hStill.timestamp]
  apply h
  rw [← hStill.currentTask]
  exact hx

omit [DecidableEq τ] in
/-- The tasks of other cores are other tasks. -/
theorem Stamped.resumed (h : Stamped now s) (hConserved : Conserved s' queue)
    (hResumed : Resumed core tsc s s') : Stamped (Function.update now core tsc) s' := by
  intro other x hx
  by_cases hOther : other = core
  · subst hOther
    rw [Function.update_self]
    exact hResumed.started x hx
  · have hElse : (s'.localsched core).currentTask ≠ some x := by
      intro hCurrent
      have hMem : x ∈ places s' queue (.current core) := by simp [places, hCurrent]
      have hMem' : x ∈ places s' queue (.current other) := by simp [places, hx]
      exact hOther (Place.current.inj (hConserved.arranged.placed.disjoint _ _ x hMem' hMem))
    rw [Function.update_of_ne hOther, hResumed.kept x hElse]
    apply h
    rw [← hResumed.others other hOther]
    exact hx

omit [DecidableEq τ] in
theorem advance_pair (action : Action κ τ)
    (hReadings : ∀ other, readings other action = if core = other then [tsc, tsc'] else []) :
    advance now action = Function.update now core tsc' := by
  funext other
  rw [advance, hReadings]
  by_cases hOther : core = other
  · subst hOther
    simp
  · rw [if_neg hOther, Function.update_of_ne (Ne.symm hOther)]
    rfl

omit [DecidableEq τ] in
theorem advance_one (action : Action κ τ)
    (hReadings : ∀ other, readings other action = if core = other then [tsc] else []) :
    advance now action = Function.update now core tsc := by
  funext other
  rw [advance, hReadings]
  by_cases hOther : core = other
  · subst hOther
    simp
  · rw [if_neg hOther, Function.update_of_ne (Ne.symm hOther)]
    rfl

/-- Every step leaves current tasks with the last reading of their core. -/
theorem Stamped.step {action : Action κ τ} {queue' : κ → List τ} (h : Stamped now s)
    (hConserved : Conserved s queue) (hAfter : Conserved s' queue')
    (hExec : exec depth s action = some s') : Stamped (advance now action) s' := by
  cases action with
  | associate logicalId task =>
      simp only [exec] at hExec
      split at hExec
      · cases hExec
      · cases hExec
        have hSet : ∀ value : ThreadTask κ, value.timestamp = (s.task task).timestamp →
            Still s (threadLocalschedWakeUp task (s.setTask task value)) :=
          fun value hStamp => (still_setTask hStamp).trans still_wakeUp
        have hStill := hSet { s.task task with
          unfairness := 0, accUnfairnessIdle := 0, coreId := logicalId } rfl
        exact h.still { hStill with }
  | wakeUp task =>
      have hStill : Still s (threadLocalschedWakeUp task s) := still_wakeUp
      simp only [exec] at hExec
      split at hExec
      · cases hExec
        exact h.still { hStill with }
      · split at hExec
        · cases hExec
        · cases hExec
          exact h.still { hStill with }
  | timer core tsc tsc' =>
      rw [advance_pair _ fun _ => rfl]
      exact h.resumed hAfter (timer_resumed hExec)
  | yield core tsc tsc' =>
      rw [advance_pair _ fun _ => rfl]
      exact h.resumed hAfter (leave_resumed hExec)
  | suspendCurrent core tsc tsc' =>
      rw [advance_pair _ fun _ => rfl]
      exact h.resumed hAfter (leave_resumed hExec)
  | terminate core tsc tsc' =>
      rw [advance_pair _ fun _ => rfl]
      exact h.resumed hAfter (leave_resumed hExec)
  | bootstrap core tsc =>
      rw [advance_one _ fun _ => rfl]
      simp only [exec] at hExec
      split at hExec
      · rename_i hPhase
        have hNone := hConserved.waiting core (by rw [hPhase]; decide)
        exact h.resumed hAfter (dequeue_resumed hNone hExec)
      · cases hExec
  | idleRound core tsc =>
      rw [advance_one _ fun _ => rfl]
      simp only [exec] at hExec
      split at hExec
      · rename_i hPhase
        have hNone := hConserved.waiting core (by rw [hPhase]; decide)
        exact h.resumed hAfter (dequeueRound_resumed hNone hExec)
      · cases hExec
  | ipi core =>
      simp only [exec] at hExec
      split at hExec
      · cases hExec
      · cases hExec
        have hData : Still s (threadLocalschedIpiDummy core s) := still_setData rfl
        have hTaken : Still s ((threadLocalschedIpiDummy core s).setIpis core (s.ipis core - 1)) :=
          { hData with }
        exact h.still (hTaken.trans still_interrupted)
  | interrupt core =>
      cases hExec
      exact h.still still_interrupted

end Stamps

end Ricerca.Localsched
